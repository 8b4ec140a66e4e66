import Rcllite.MsgRoundTrip

/-! Decoding arbitrary bytes. One lemma says what a single reader operation can
do; the position bounds, the absence of wrapping and the stability under
extension follow for every program, hence for every schema. -/
namespace Rcllite
open Interaction

/-- The position has left the header and not the buffer. -/
def CdrReader.Inside (r : CdrReader) : Prop := 4 ≤ r.pos ∧ r.pos ≤ r.buf.length

namespace ReadOp

/-- Sizes as emitted code requests them: alignments from the `PRIM` table,
32-bit lengths, and byte counts below `2^62`. -/
def Small : ReadOp → Prop
  | .alignTo n => 0 < n ∧ n ≤ 8
  | .readBytes count elem => count*elem < 2^62
  | .readChars len => len < 2^32
  | .guardRemaining n => n < 2^32

/-- The `size_t` expressions of the operation have their mathematical value. -/
def NoWrap (r : CdrReader) : ReadOp → Prop
  | .alignTo n => 4 ≤ r.pos ∧ r.pos + padding n (r.pos - 4) < 2^64
  | .readBytes count elem => count*elem < 2^64 ∧ r.pos + count*elem < 2^64
  | .readChars len => r.pos + len < 2^64
  | .guardRemaining _ => r.pos ≤ r.buf.length

/-- The operation copies byte `i` of the buffer: its check passes and `i` lies
in the copied range. -/
def ReadsByte (r : CdrReader) (i : ℕ) : ReadOp → Prop
  | .readBytes count elem => sizeT (r.pos + sizeT (count*elem)) ≤ r.buf.length ∧
      r.pos ≤ i ∧ i < r.pos + sizeT (count*elem)
  | .readChars len => len ≠ 0 ∧ sizeT (r.pos + len) ≤ r.buf.length ∧
      r.pos ≤ i ∧ i < r.pos + (len - 1)
  | _ => False

end ReadOp

/-- The encapsulation identifier is `00 01` exactly. -/
theorem encapsulation_id (b0 b1 : UInt8) :
    (b0.toNat <<< 8 ||| b1.toNat) % 2^16 = 0x0001 ↔ b0 = 0 ∧ b1 = 1 := by
  have h0 : b0.toNat < 2^8 := b0.toNat_lt
  have h1 : b1.toNat < 2^8 := b1.toNat_lt
  rw [← Nat.shiftLeft_add_eq_or_of_lt h1, Nat.shiftLeft_eq, Nat.mod_eq_of_lt (by omega),
    ← UInt8.toNat_inj, ← UInt8.toNat_inj]
  simp only [UInt8.toNat_zero, UInt8.toNat_one]
  omega

theorem new_ok_iff (b : List UInt8) (r : CdrReader) :
    CdrReader.new b = .ok r ↔ ∃ b2 b3 rest, b = 0 :: 1 :: b2 :: b3 :: rest ∧ r = ⟨b, 4⟩ := by
  constructor
  · intro h
    unfold CdrReader.new at h
    split at h
    · rename_i b0 b1 b2 b3 rest
      dsimp only at h
      split_ifs at h with hid
      obtain ⟨rfl, rfl⟩ := (encapsulation_id b0 b1).mp (not_not.mp hid)
      exact ⟨b2, b3, rest, rfl, (Except.ok.inj h).symm⟩
    · cases h
  · rintro ⟨b2, b3, rest, rfl, rfl⟩
    rfl

theorem new_clean (b : List UInt8) : CdrReader.new b ≠ .error .outOfBounds := by
  unfold CdrReader.new
  split
  · dsimp only
    split_ifs <;> simp
  · simp

theorem new_inside {b : List UInt8} {r : CdrReader} (h : CdrReader.new b = .ok r) :
    r.Inside ∧ r = ⟨b, 4⟩ := by
  obtain ⟨b2, b3, rest, rfl, rfl⟩ := (new_ok_iff b r).mp h
  exact ⟨⟨le_rfl, by simp⟩, rfl⟩

/-- The header check only looks at the first four bytes. -/
theorem new_append {b : List UInt8} {r : CdrReader} (h : CdrReader.new b = .ok r) (t : List UInt8) :
    CdrReader.new (b ++ t) = .ok ⟨b ++ t, 4⟩ := by
  obtain ⟨b2, b3, rest, rfl, rfl⟩ := (new_ok_iff b r).mp h
  exact (new_ok_iff _ _).mpr ⟨b2, b3, rest ++ t, rfl, rfl⟩

theorem CdrReader.Inside.advance {r : CdrReader} (hr : r.Inside) {n : ℕ} (hn : r.pos + n ≤ r.buf.length) :
    CdrReader.Inside { r with pos := r.pos + n } :=
  ⟨hr.1.trans (Nat.le_add_right _ _), hn⟩

section Step
variable {r : CdrReader} (hr : r.Inside) (hb : r.buf.length < 2^63)
include hr hb

theorem CdrReader.Inside.payloadOffset_eq : r.payloadOffset = r.pos - 4 := by
  obtain ⟨h4, hle⟩ := hr
  unfold CdrReader.payloadOffset sizeT
  rw [show r.pos + 2^64 - 4 = (r.pos - 4) + 2^64 by omega, Nat.add_mod_right,
    Nat.mod_eq_of_lt (by omega)]

theorem CdrReader.Inside.remaining_eq : r.remaining = r.buf.length - r.pos := by
  obtain ⟨h4, hle⟩ := hr
  unfold CdrReader.remaining sizeT
  rw [show r.buf.length + 2^64 - r.pos = (r.buf.length - r.pos) + 2^64 by omega,
    Nat.add_mod_right, Nat.mod_eq_of_lt (by omega)]

theorem CdrReader.Inside.sizeT_pos_add {n : ℕ} (hn : n < 2^62) : sizeT (r.pos + n) = r.pos + n := by
  obtain ⟨h4, hle⟩ := hr
  exact sizeT_of_lt (by omega)

omit hr hb in
theorem CdrReader.Inside.padding_small {n : ℕ} (hn : 0 < n ∧ n ≤ 8) : padding n (r.pos - 4) < 2^62 := by
  have := padding_lt n (r.pos - 4) hn.1
  omega

theorem CdrReader.Inside.alignTo_eq {n : ℕ} (hn : 0 < n ∧ n ≤ 8) :
    r.alignTo n =
      if r.pos + padding n (r.pos - 4) > r.buf.length then
        .error (.error "CDR alignment runs past end of buffer")
      else .ok ((), { r with pos := r.pos + padding n (r.pos - 4) }) := by
  simp only [CdrReader.alignTo, hr.payloadOffset_eq hb,
    hr.sizeT_pos_add hb (CdrReader.Inside.padding_small hn)]

theorem CdrReader.Inside.readBytes_eq {n : ℕ} (hn : n < 2^62) :
    r.readBytes n =
      if r.pos + n > r.buf.length then .error (.error "CDR read past end of buffer")
      else .ok ((r.buf.drop r.pos).take n, { r with pos := r.pos + n }) := by
  simp only [CdrReader.readBytes, hr.sizeT_pos_add hb hn]
  split_ifs with h
  · rfl
  · rw [CdrReader.copy, if_pos (by omega)]
    rfl

theorem CdrReader.Inside.readChars_eq {n : ℕ} (hn : n < 2^32) :
    r.readChars n =
      if n = 0 ∨ r.pos + n > r.buf.length then .error (.error "invalid string length in CDR stream")
      else .ok ((r.buf.drop r.pos).take (n - 1), { r with pos := r.pos + n }) := by
  simp only [CdrReader.readChars, hr.sizeT_pos_add hb (by omega : n < 2^62)]
  split_ifs with h
  · rfl
  · rw [CdrReader.copy, if_pos (by omega)]
    rfl

end Step

/-- The outcome of one operation: an advance within the buffer, or a failure
with `false` or an `rcl::Error`. -/
inductive CdrReader.Safe {β : Type} (r : CdrReader) : Except Failure (β × CdrReader) → Prop
  | ok (x : β) (r' : CdrReader) (hbuf : r'.buf = r.buf) (hin : r'.Inside) (hle : r.pos ≤ r'.pos) :
      Safe r (.ok (x, r'))
  | returnFalse : Safe r (.error .returnFalse)
  | error (message : String) : Safe r (.error (.error message))

attribute [local irreducible] sizeT

namespace CdrReader.Safe
variable {r : CdrReader} (hr : r.Inside) (hb : r.buf.length < 2^63)
include hr

theorem advance {β : Type} (x : β) {n : ℕ} (hn : r.pos + n ≤ r.buf.length) :
    r.Safe (.ok (x, { r with pos := r.pos + n })) :=
  .ok x _ rfl (hr.advance hn) (Nat.le_add_right _ _)

theorem stay {β : Type} (x : β) : r.Safe (.ok (x, r)) := .ok x r rfl hr le_rfl

theorem guardRemaining (n : ℕ) : r.Safe (r.guardRemaining n) := by
  unfold CdrReader.guardRemaining
  split_ifs
  · exact .returnFalse
  · exact stay hr ()

include hb

theorem alignTo {n : ℕ} (hn : 0 < n ∧ n ≤ 8) : r.Safe (r.alignTo n) := by
  rw [hr.alignTo_eq hb hn]
  split_ifs with h
  · exact .error _
  · exact advance hr () (not_lt.mp h)

theorem readBytes {n : ℕ} (hn : n < 2^62) : r.Safe (r.readBytes n) := by
  rw [hr.readBytes_eq hb hn]
  split_ifs with h
  · exact .error _
  · exact advance hr _ (not_lt.mp h)

theorem readChars {n : ℕ} (hn : n < 2^32) : r.Safe (r.readChars n) := by
  rw [hr.readChars_eq hb hn]
  split_ifs with h
  · exact .error _
  · exact advance hr _ (by omega)

/-- Every operation emitted code makes is safe from inside the buffer. -/
theorem readStep (g : Bool) (o : ReadOp) (ho : o.Small) : r.Safe (Rcllite.readStep g o r) := by
  cases o with
  | alignTo n => exact alignTo hr hb ho
  | readBytes count elem =>
    have hc : count*elem < 2^62 := ho
    have hs : sizeT (count*elem) = count*elem := sizeT_of_lt (by omega)
    change r.Safe (r.readBytes (sizeT (count*elem)))
    rw [hs]
    exact readBytes hr hb hc
  | readChars len => exact readChars hr hb ho
  | guardRemaining n =>
    cases g with
    | false => exact stay hr ()
    | true => exact guardRemaining hr n

end CdrReader.Safe

section Operands
variable {r : CdrReader} (hr : r.Inside) (hb : r.buf.length < 2^63) (o : ReadOp) (ho : o.Small)
include hr hb ho

theorem ReadOp.noWrap : o.NoWrap r := by
  obtain ⟨h4, hle⟩ := hr
  cases o with
  | alignTo n =>
    have := CdrReader.Inside.padding_small (r := r) ho
    exact ⟨h4, by omega⟩
  | readBytes count elem =>
    have hc : count*elem < 2^62 := ho
    exact ⟨by omega, by omega⟩
  | readChars len =>
    have hl : len < 2^32 := ho
    change r.pos + len < 2^64
    omega
  | guardRemaining n => exact hle

theorem ReadOp.readsByte_lt (i : ℕ) (hi : o.ReadsByte r i) : i < r.buf.length := by
  cases o with
  | alignTo n => exact hi.elim
  | readBytes count elem =>
    have hc : count*elem < 2^62 := ho
    obtain ⟨hend, hlo, hhi⟩ := hi
    rw [sizeT_of_lt (by omega : count*elem < 2^64)] at hend hhi
    rw [hr.sizeT_pos_add hb hc] at hend
    omega
  | readChars len =>
    have hl : len < 2^32 := ho
    obtain ⟨hne, hend, hlo, hhi⟩ := hi
    rw [hr.sizeT_pos_add hb (by omega)] at hend
    omega
  | guardRemaining n => exact hi.elim

end Operands

/-- `r` reads `b` and `r'` reads `b ++ t`, from the same place. -/
structure CdrReader.Extends (b t : List UInt8) (r r' : CdrReader) : Prop where
  inside : r.Inside
  pos_eq : r'.pos = r.pos
  source : r.buf = b
  target : r'.buf = b ++ t
  bound : (b ++ t).length < 2^62

namespace CdrReader.Extends
variable {b t : List UInt8} {r r' : CdrReader} (h : r.Extends b t r')
include h

theorem buf_eq : r'.buf = r.buf ++ t := by rw [h.target, h.source]

theorem size_lt : r'.buf.length < 2^63 := (h.target ▸ h.bound).trans (by decide)

theorem length_le : r.buf.length ≤ r'.buf.length := by
  rw [h.buf_eq, List.length_append]
  omega

theorem source_lt : r.buf.length < 2^63 := h.length_le.trans_lt h.size_lt

theorem inside' : r'.Inside := by
  have hi := h.inside
  have hl := h.length_le
  exact ⟨h.pos_eq ▸ hi.1, h.pos_eq ▸ hi.2.trans hl⟩

theorem copied {n : ℕ} (hn : r.pos + n ≤ r.buf.length) :
    (r'.buf.drop r'.pos).take n = (r.buf.drop r.pos).take n := by
  have hi := h.inside
  rw [h.pos_eq, h.buf_eq, List.drop_append_of_le_length hi.2, List.take_append_of_le_length]
  rw [List.length_drop]
  omega

theorem advance {n : ℕ} (hn : r.pos + n ≤ r.buf.length) :
    CdrReader.Extends b t { r with pos := r.pos + n } { r' with pos := r'.pos + n } := by
  have hi := h.inside
  have hp := h.pos_eq
  exact ⟨⟨by dsimp only; have := hi.1; omega, hn⟩, by dsimp only; omega, h.source, h.target, h.bound⟩

/-- An operation that succeeds on a buffer succeeds alike on every longer one. -/
theorem step (g : Bool) (o : ReadOp) (ho : o.Small) (x : readSig.Reply o) (s : CdrReader)
    (hok : readStep g o r = .ok (x, s)) :
    ∃ s', readStep g o r' = .ok (x, s') ∧ s.Extends b t s' := by
  have hr := h.inside
  have hr' := h.inside'
  have hb := h.source_lt
  have hb' := h.size_lt
  have hl := h.length_le
  have hp := h.pos_eq
  cases o with
  | alignTo n =>
    have hok : r.alignTo n = .ok (x, s) := hok
    rw [hr.alignTo_eq hb ho] at hok
    split_ifs at hok with hc
    obtain ⟨rfl, rfl⟩ := Prod.mk.inj (Except.ok.inj hok)
    refine ⟨_, ?_, h.advance (not_lt.mp hc)⟩
    change r'.alignTo n = _
    rw [hr'.alignTo_eq hb' ho, hp, if_neg (by omega)]
    rfl
  | readBytes count elem =>
    have hn : count*elem < 2^62 := ho
    have hs : sizeT (count*elem) = count*elem := sizeT_of_lt (by omega)
    have hok : r.readBytes (sizeT (count*elem)) = .ok (x, s) := hok
    rw [hs, hr.readBytes_eq hb hn] at hok
    split_ifs at hok with hc
    obtain ⟨rfl, rfl⟩ := Prod.mk.inj (Except.ok.inj hok)
    -- the bytes are inside the shorter buffer, so the longer one has the same there
    refine ⟨_, ?_, h.advance (not_lt.mp hc)⟩
    change r'.readBytes (sizeT (count*elem)) = _
    rw [hs, hr'.readBytes_eq hb' hn, if_neg (by omega), h.copied (not_lt.mp hc)]
    rfl
  | readChars len =>
    have hok : r.readChars len = .ok (x, s) := hok
    rw [hr.readChars_eq hb ho] at hok
    split_ifs at hok with hc
    obtain ⟨rfl, rfl⟩ := Prod.mk.inj (Except.ok.inj hok)
    refine ⟨_, ?_, h.advance (n := len) (by omega)⟩
    change r'.readChars len = _
    rw [hr'.readChars_eq hb' ho, if_neg (by omega), h.copied (by omega)]
    rfl
  | guardRemaining n =>
    cases g with
    | false =>
      obtain ⟨rfl, rfl⟩ := Prod.mk.inj (Except.ok.inj hok)
      exact ⟨r', rfl, h⟩
    | true =>
      have hok : r.guardRemaining n = .ok (x, s) := hok
      rw [CdrReader.guardRemaining, hr.remaining_eq hb] at hok
      split_ifs at hok with hc
      obtain ⟨rfl, rfl⟩ := Prod.mk.inj (Except.ok.inj hok)
      refine ⟨r', ?_, h⟩
      change r'.guardRemaining n = _
      rw [CdrReader.guardRemaining, hr'.remaining_eq hb', if_neg (by omega)]
      rfl

end CdrReader.Extends

end Rcllite
