import Rcllite.CdrBulk
import Rcllite.MsgSafety

/-! The guard `n > r.remaining()` in front of a sequence. A decoder with the
guards and one without them differ only by an early `return false`, and a
guard is harmless as long as every element takes at least one byte. -/
namespace Rcllite
open Interaction

variable {α β T : Type}

/-- A reader inside a buffer of a size that a memory can hold. -/
structure CdrReader.Ready (r : CdrReader) : Prop where
  inside : r.Inside
  size_lt : r.buf.length < 2^63

theorem CdrReader.Ready.remaining_eq {r : CdrReader} (hr : r.Ready) : r.remaining = r.buf.length - r.pos :=
  hr.inside.remaining_eq hr.size_lt

/-- What a completed run of small steps leaves. -/
structure CdrReader.Follows (r s : CdrReader) : Prop where
  buf_eq : s.buf = r.buf
  ready : s.Ready
  pos_le : r.pos ≤ s.pos

theorem CdrReader.Follows.refl {r : CdrReader} (hr : r.Ready) : r.Follows r := ⟨rfl, hr, le_rfl⟩

theorem CdrReader.Follows.trans {r s u : CdrReader} (h : r.Follows s) (h' : s.Follows u) : r.Follows u :=
  ⟨h'.buf_eq.trans h.buf_eq, h'.ready, h.pos_le.trans h'.pos_le⟩

theorem readStep_follows {g : Bool} {o : ReadOp} (ho : o.Small) {r s : CdrReader} {x : readSig.Reply o}
    (hr : r.Ready) (h : readStep g o r = .ok (x, s)) : r.Follows s := by
  have hsafe := CdrReader.Safe.readStep hr.inside hr.size_lt g o ho
  rw [h] at hsafe
  cases hsafe with
  | ok x s hbuf hin hle => exact ⟨hbuf, ⟨hin, hbuf ▸ hr.size_lt⟩, hle⟩

theorem run_follows {g : Bool} {p : Decoder α} (hp : p.Modest) {r s : CdrReader} {a : α} (hr : r.Ready)
    (h : p.run (readStep g) r = .ok (a, s)) : r.Follows s :=
  Prog.run_invariant (readStep g) r.Follows
    (fun _ _ _ _ ho hs hok => hs.trans (readStep_follows ho hs.ready hok)) p hp (.refl hr) h

theorem readStep_guarded (o : ReadOp) (r : CdrReader) :
    readStep true o r = readStep false o r ∨ readStep true o r = .error .returnFalse := by
  cases o with
  | alignTo n => exact Or.inl (Eq.refl (r.alignTo n))
  | readBytes count elem => exact Or.inl (Eq.refl (r.readBytes (sizeT (count*elem))))
  | readChars len => exact Or.inl (Eq.refl (r.readChars len))
  | guardRemaining n =>
    change r.guardRemaining n = .ok ((), r) ∨ r.guardRemaining n = .error .returnFalse
    unfold CdrReader.guardRemaining
    split_ifs
    · exact Or.inr rfl
    · exact Or.inl rfl

/-- The guards of a run either never matter or end it with `false`. -/
theorem run_guarded (p : Decoder α) (r : CdrReader) :
    p.run (readStep true) r = p.run (readStep false) r ∨ p.run (readStep true) r = .error .returnFalse := by
  induction p generalizing r with
  | done a =>
    left
    rw [Prog.run_done, Prog.run_done]
  | fail e =>
    left
    rw [Prog.run_fail, Prog.run_fail]
  | call o next ih =>
    simp only [Prog.run]
    rcases readStep_guarded o r with heq | hfalse
    · rw [heq]
      cases readStep false o r with
      | ok x => exact ih x.1 x.2
      | error e => exact Or.inl rfl
    · rw [hfalse]
      exact Or.inr rfl

attribute [local irreducible] sizeT

namespace Decoder

/-- Every completed run consumes at least one byte. -/
def Moves (p : Decoder α) : Prop :=
  ∀ (g : Bool) (r s : CdrReader) (a : α), r.Ready → p.run (readStep g) r = .ok (a, s) → r.pos < s.pos

/-- What is accepted without the guards is accepted with them. -/
def GuardFree (p : Decoder α) : Prop :=
  ∀ (r s : CdrReader) (a : α), r.Ready → p.run (readStep false) r = .ok (a, s) →
    p.run (readStep true) r = .ok (a, s)

theorem moves_bind_left {p : Decoder α} {k : α → Decoder β} (hm : p.Modest) (hp : p.Moves)
    (hk : ∀ a, (k a).Modest) : Moves (p.bind k) := by
  intro g r s b hr h
  obtain ⟨a, u, hfirst, hrest⟩ := Prog.run_bind_eq_ok _ h
  exact (hp g r u a hr hfirst).trans_le (run_follows (hk a) (run_follows hm hr hfirst).ready hrest).pos_le

theorem moves_bind_right {p : Decoder α} {k : α → Decoder β} (hm : p.Modest) (hk : ∀ a, (k a).Moves) :
    Moves (p.bind k) := by
  intro g r s b hr h
  obtain ⟨a, u, hfirst, hrest⟩ := Prog.run_bind_eq_ok _ h
  have hu := run_follows hm hr hfirst
  exact hu.pos_le.trans_lt (hk a g u s b hu.ready hrest)

theorem readBytes_moves {count elem : ℕ} (hpos : 0 < count*elem) (hlt : count*elem < 2^62) :
    (readBytes count elem).Moves := by
  intro g r s bs hr h
  rw [run_readBytes, sizeT_of_lt (by omega), hr.inside.readBytes_eq hr.size_lt hlt] at h
  split_ifs at h
  obtain rfl := (Prod.mk.inj (Except.ok.inj h)).2
  exact Nat.lt_add_of_pos_right hpos

theorem readAligned_moves (p : Prim) : (readAligned p).Moves := by
  have hpos := p.sizeof_pos
  have hle := p.sizeof_le
  refine moves_bind_right (alignTo_modest ⟨hpos, hle⟩) (fun _ => ?_)
  exact moves_bind_left (readBytes_modest (by omega)) (readBytes_moves (by omega) (by omega))
    (fun _ => trivial)

theorem readPrim_moves (p : Prim) : (readPrim p).Moves := by
  rw [readPrim_eq_readAligned]
  exact readAligned_moves p

theorem readUint32_moves : readUint32.Moves := readAligned_moves .uint32

theorem readString_moves : readString.Moves :=
  moves_bind_left readUint32_modest readUint32_moves (fun len => readChars_modest len.isLt)

theorem done_guardFree (a : α) : GuardFree (.done a) := by
  intro r s b _ h
  rw [Prog.run_done] at h ⊢
  exact h

theorem bind_guardFree {p : Decoder α} {k : α → Decoder β} (hm : p.Modest) (hp : p.GuardFree)
    (hk : ∀ a, (k a).GuardFree) : GuardFree (p.bind k) := by
  intro r s b hr h
  obtain ⟨a, u, hfirst, hrest⟩ := Prog.run_bind_eq_ok _ h
  rw [Prog.run_bind_ok _ (hp r u a hr hfirst)]
  exact hk a u s b (run_follows hm hr hfirst).ready hrest

theorem alignTo_guardFree (n : ℕ) : (alignTo n).GuardFree := by
  intro r s a _ h
  rw [run_alignTo] at h ⊢
  exact h

theorem readBytes_guardFree (count elem : ℕ) : (readBytes count elem).GuardFree := by
  intro r s a _ h
  rw [run_readBytes] at h ⊢
  exact h

theorem readChars_guardFree (len : ℕ) : (readChars len).GuardFree := by
  intro r s a _ h
  rw [run_readChars] at h ⊢
  exact h

theorem readAligned_guardFree (p : Prim) : (readAligned p).GuardFree := by
  have hle := p.sizeof_le
  exact bind_guardFree (alignTo_modest ⟨p.sizeof_pos, hle⟩) (alignTo_guardFree p.sizeof) (fun _ =>
    bind_guardFree (readBytes_modest (by omega)) (readBytes_guardFree 1 p.sizeof)
      (fun bs => done_guardFree (p.ofBytes bs)))

theorem readPrim_guardFree (p : Prim) : (readPrim p).GuardFree := by
  rw [readPrim_eq_readAligned]
  exact readAligned_guardFree p

theorem readString_guardFree : readString.GuardFree :=
  bind_guardFree readUint32_modest (readAligned_guardFree .uint32) (fun len => readChars_guardFree len.toNat)

theorem times_guardFree {p : Decoder α} (hm : p.Modest) (hp : p.GuardFree) (n : ℕ) : GuardFree (p.times n) := by
  induction n with
  | zero => exact done_guardFree []
  | succ n ih =>
    exact bind_guardFree hm hp (fun a =>
      bind_guardFree (Prog.uses_times hm n) ih (fun as => done_guardFree (a :: as)))

theorem forVec_guardFree {f : α → Decoder β} (hm : ∀ a, (f a).Modest) (hf : ∀ a, (f a).GuardFree) {n : ℕ}
    (v : List.Vector α n) : GuardFree (Prog.forVec f v) := by
  induction n with
  | zero => exact done_guardFree _
  | succ n ih =>
    exact bind_guardFree (hm _) (hf _) (fun b =>
      bind_guardFree (Prog.uses_forVec hm v.tail) (ih v.tail) (fun bs => done_guardFree (b ::ᵥ bs)))

/-- A loop that moves at every element it comes to consumes a byte for each. -/
theorem times_advance_of {p : Decoder α} {g : Bool} {r : CdrReader}
    (hmove : ∀ k as u, (p.times k).run (readStep g) r = .ok (as, u) →
      ∀ a s, p.run (readStep g) u = .ok (a, s) → u.pos < s.pos)
    {n : ℕ} {s : CdrReader} {as : List α} (h : (p.times n).run (readStep g) r = .ok (as, s)) :
    r.pos + n ≤ s.pos := by
  induction n generalizing s as with
  | zero =>
    rw [(Prod.mk.inj (Except.ok.inj h)).2]
    exact le_rfl
  | succ n ih =>
    obtain ⟨bs, u, cs, hfirst, hlast⟩ := (Prog.run_times_add _ p n 1 r s).mp ⟨as, h⟩
    obtain ⟨c, v, hc, hdone⟩ := Prog.run_bind_eq_ok _ hlast
    have hle := ih hfirst
    have hlt := hmove n bs u hfirst c v hc
    have hend : v = s := (Prod.mk.inj (Except.ok.inj hdone)).2
    rw [← hend]
    omega

theorem times_advance {p : Decoder α} (hm : p.Modest) (hp : p.Moves) {g : Bool} {n : ℕ} {r s : CdrReader}
    {as : List α} (hr : r.Ready) (h : (p.times n).run (readStep g) r = .ok (as, s)) : r.pos + n ≤ s.pos :=
  times_advance_of (fun k _ u hk a s hs =>
    hp g u s a (run_follows (Prog.uses_times hm k) hr hk).ready hs) h

/-- The guard in front of a loop that consumes a byte for each announced
element. -/
theorem guardRemaining_guardFree {p : Decoder α} {n : ℕ} (hm : p.Modest) (hp : p.GuardFree)
    (hadv : ∀ (r s : CdrReader) (a : α), r.Ready → p.run (readStep false) r = .ok (a, s) → r.pos + n ≤ s.pos) :
    GuardFree ((guardRemaining n).bind (fun _ => p)) := by
  intro r s a hr h
  rw [Prog.run_bind_ok _ (run_guardRemaining_false n r)] at h
  have hs := run_follows hm hr h
  have hle := hadv r s a hr h
  have hend : s.pos ≤ r.buf.length := hs.buf_eq ▸ hs.ready.inside.2
  have hpass : (guardRemaining n).run (readStep true) r = .ok ((), r) := by
    rw [run_guardRemaining, CdrReader.guardRemaining, hr.remaining_eq, if_neg (by omega)]
  rw [Prog.run_bind_ok _ hpass]
  exact hp r s a hr h

end Decoder

section ReadSequence

/-- `read_sequence` without its guard. -/
def readSequenceUnguarded (fresh : T) (deserializeElem : T → Decoder T) : Decoder (List T) := do
  Decoder.alignTo 4
  let n ← Decoder.readUint32
  (deserializeElem fresh).times n.toNat

/-- Where the elements of a sequence start: behind a length that stands at a
multiple of four. -/
structure CdrReader.AfterLength (r : CdrReader) : Prop where
  ready : r.Ready
  length_fits : 8 ≤ r.pos
  aligned : r.pos % 4 = 0

/-- No element that a sequence comes to is read from zero bytes. Where
`2^32 - 1` bytes or more are left no 32-bit count exceeds them. -/
def ElementsMove (d : Decoder T) : Prop :=
  ∀ r : CdrReader, r.AfterLength → r.buf.length - r.pos < 2^32 - 1 →
    ∀ k vs s, (d.times k).run (readStep true) r = .ok (vs, s) →
      ∀ v s', d.run (readStep true) s = .ok (v, s') → s.pos < s'.pos

theorem readUint32_afterLength {g : Bool} {r s : CdrReader} {n : BitVec 32} (hr : r.Ready)
    (h : Decoder.readUint32.run (readStep g) r = .ok (n, s)) : s.AfterLength := by
  have hs := run_follows Decoder.readUint32_modest hr h
  obtain ⟨⟨⟩, u, halign, hrest⟩ := Prog.run_bind_eq_ok _ h
  obtain ⟨bs, v, hbytes, hdone⟩ := Prog.run_bind_eq_ok _ hrest
  have hsize : Prim.sizeof .uint32 = 4 := rfl
  have hu := run_follows (Decoder.alignTo_modest (by decide)) hr halign
  rw [Decoder.run_alignTo, hsize, hr.inside.alignTo_eq hr.size_lt (by decide)] at halign
  rw [Decoder.run_readBytes, hsize, sizeT_of_lt (by decide),
    hu.ready.inside.readBytes_eq hu.ready.size_lt (by decide)] at hbytes
  split_ifs at halign
  split_ifs at hbytes
  have hv : v.pos = u.pos + 4 := by rw [← (Prod.mk.inj (Except.ok.inj hbytes)).2]
  have hup : u.pos = r.pos + padding 4 (r.pos - 4) := by rw [← (Prod.mk.inj (Except.ok.inj halign)).2]
  have hpos : s.pos = u.pos + 4 := by rw [← (Prod.mk.inj (Except.ok.inj hdone)).2, hv]
  have hmod := padding_aligned 4 (r.pos - 4) (by decide)
  have h4 := hr.inside.1
  exact ⟨hs.ready, by omega, by omega⟩

/-- The guard is harmless where every element moves. -/
theorem readSequence_of_move {fresh : T} {elem : T → Decoder T} (hm : (elem fresh).Modest)
    (hmove : ElementsMove (elem fresh)) {r : CdrReader} (hr : r.Ready) (vs : List T) (s : CdrReader) :
    (readSequence fresh elem).run (readStep true) r = .ok (vs, s) ↔
      (readSequenceUnguarded fresh elem).run (readStep true) r = .ok (vs, s) := by
  simp only [readSequence, readSequenceUnguarded, Prog.bind_eq]
  cases halign : (Decoder.alignTo 4).run (readStep true) r with
  | error e => rw [Prog.run_bind_error _ halign, Prog.run_bind_error _ halign]
  | ok x =>
    have hx := run_follows (Decoder.alignTo_modest (by decide)) hr halign
    rw [Prog.run_bind_ok _ halign, Prog.run_bind_ok _ halign]
    cases hlen : Decoder.readUint32.run (readStep true) x.2 with
    | error e => rw [Prog.run_bind_error _ hlen, Prog.run_bind_error _ hlen]
    | ok y =>
      obtain ⟨n, u⟩ := y
      have hu := readUint32_afterLength hx.ready hlen
      have hn : n.toNat < 2^32 := n.isLt
      rw [Prog.run_bind_ok _ hlen, Prog.run_bind_ok _ hlen]
      by_cases hguard : n.toNat > u.remaining
      · -- a refused count has no run of elements behind it either
        have hfalse : (Decoder.guardRemaining n.toNat).run (readStep true) u = .error .returnFalse := by
          rw [Decoder.run_guardRemaining, CdrReader.guardRemaining, if_pos hguard]
        rw [hu.ready.remaining_eq] at hguard
        rw [Prog.run_bind_error _ hfalse]
        refine ⟨(fun h => by cases h), fun h => absurd (Decoder.times_advance_of (hmove u hu (by omega)) h) ?_⟩
        have hs := run_follows (Prog.uses_times hm n.toNat) hu.ready h
        have hend : s.pos ≤ u.buf.length := hs.buf_eq ▸ hs.ready.inside.2
        omega
      · have hpass : (Decoder.guardRemaining n.toNat).run (readStep true) u = .ok ((), u) := by
          rw [Decoder.run_guardRemaining, CdrReader.guardRemaining, if_neg hguard]
        rw [Prog.run_bind_ok _ hpass]

/-- Two readers at one position in front of the same bytes. -/
structure CdrReader.SameAhead (r r' : CdrReader) : Prop where
  ready : r.Ready
  pos_eq : r'.pos = r.pos
  length_eq : r'.buf.length = r.buf.length
  ahead : r'.buf.drop r'.pos = r.buf.drop r.pos

namespace CdrReader.SameAhead
variable {r r' : CdrReader} (h : r.SameAhead r')
include h

theorem ready' : r'.Ready :=
  ⟨⟨h.pos_eq ▸ h.ready.inside.1, by rw [h.pos_eq, h.length_eq]; exact h.ready.inside.2⟩,
    h.length_eq ▸ h.ready.size_lt⟩

theorem advance {n : ℕ} (hn : r.pos + n ≤ r.buf.length) :
    CdrReader.SameAhead { r with pos := r.pos + n } { r' with pos := r'.pos + n } :=
  ⟨⟨h.ready.inside.advance hn, h.ready.size_lt⟩, congrArg (· + n) h.pos_eq, h.length_eq, by
    rw [← List.drop_drop, h.ahead, List.drop_drop]⟩

theorem step (g : Bool) (o : ReadOp) (ho : o.Small) (x : readSig.Reply o) (s : CdrReader)
    (hok : readStep g o r = .ok (x, s)) : ∃ s', readStep g o r' = .ok (x, s') ∧ s.SameAhead s' := by
  have hr := h.ready
  have hr' := h.ready'
  have hp := h.pos_eq
  have hl := h.length_eq
  cases o with
  | alignTo n =>
    change r.alignTo n = .ok (x, s) at hok
    rw [hr.inside.alignTo_eq hr.size_lt ho] at hok
    split_ifs at hok with hc
    obtain ⟨rfl, rfl⟩ := Prod.mk.inj (Except.ok.inj hok)
    refine ⟨_, ?_, h.advance (not_lt.mp hc)⟩
    change r'.alignTo n = _
    rw [hr'.inside.alignTo_eq hr'.size_lt ho, hp, hl, if_neg hc]
    rfl
  | readBytes count elem =>
    have hn : count*elem < 2^62 := ho
    have hs : sizeT (count*elem) = count*elem := sizeT_of_lt (by omega)
    change r.readBytes (sizeT (count*elem)) = .ok (x, s) at hok
    rw [hs, hr.inside.readBytes_eq hr.size_lt hn] at hok
    split_ifs at hok with hc
    obtain ⟨rfl, rfl⟩ := Prod.mk.inj (Except.ok.inj hok)
    refine ⟨_, ?_, h.advance (not_lt.mp hc)⟩
    change r'.readBytes (sizeT (count*elem)) = _
    rw [hs, hr'.inside.readBytes_eq hr'.size_lt hn, h.ahead, hp, hl, if_neg hc]
    rfl
  | readChars len =>
    change r.readChars len = .ok (x, s) at hok
    rw [hr.inside.readChars_eq hr.size_lt ho] at hok
    split_ifs at hok with hc
    obtain ⟨rfl, rfl⟩ := Prod.mk.inj (Except.ok.inj hok)
    refine ⟨_, ?_, h.advance (n := len) (by omega)⟩
    change r'.readChars len = _
    rw [hr'.inside.readChars_eq hr'.size_lt ho, h.ahead, hp, hl, if_neg hc]
    rfl
  | guardRemaining n =>
    cases g with
    | false =>
      obtain ⟨rfl, rfl⟩ := Prod.mk.inj (Except.ok.inj hok)
      exact ⟨r', rfl, h⟩
    | true =>
      change r.guardRemaining n = .ok (x, s) at hok
      rw [CdrReader.guardRemaining, hr.remaining_eq] at hok
      split_ifs at hok with hc
      obtain ⟨rfl, rfl⟩ := Prod.mk.inj (Except.ok.inj hok)
      refine ⟨r', ?_, h⟩
      change r'.guardRemaining n = _
      rw [CdrReader.guardRemaining, hr'.remaining_eq, hp, hl, if_neg hc]
      rfl

theorem run {p : Decoder α} (hp : p.Modest) {g : Bool} {a : α} {s : CdrReader}
    (hok : p.run (readStep g) r = .ok (a, s)) : ∃ s', p.run (readStep g) r' = .ok (a, s') := by
  obtain ⟨s', hs', -⟩ := Prog.run_simulation (readStep g) (readStep g) CdrReader.SameAhead
    (fun o _ _ x u ho hsame hstep => hsame.step g o ho x u hstep) p hp r r' h a s hok
  exact ⟨s', hs'⟩

end CdrReader.SameAhead

/-- An element that was read from zero bytes can be read any number of times. -/
theorem run_times_stuck {d : Decoder T} {g : Bool} {s : CdrReader} {v : T}
    (h : d.run (readStep g) s = .ok (v, s)) (n : ℕ) :
    (d.times n).run (readStep g) s = .ok (List.replicate n v, s) := by
  induction n with
  | zero => rfl
  | succ n ih => exact Prog.run_times_succ _ h ih

theorem run_times_past_stuck {d : Decoder T} (hm : d.Modest) {r s s' : CdrReader} (hr : r.Ready) {k : ℕ}
    {vs : List T} {v : T} (hk : (d.times k).run (readStep true) r = .ok (vs, s))
    (hv : d.run (readStep true) s = .ok (v, s')) (hstuck : ¬ s.pos < s'.pos) (n : ℕ) :
    ∃ ws u, (d.times n).run (readStep true) r = .ok (ws, u) := by
  have hs := run_follows (Prog.uses_times hm k) hr hk
  have hs' := run_follows hm hs.ready hv
  obtain rfl : s = s' := by
    cases s
    cases s'
    simp only [CdrReader.mk.injEq]
    exact ⟨hs'.buf_eq.symm, le_antisymm hs'.pos_le (not_lt.mp hstuck)⟩
  rcases le_total n k with hle | hle
  · obtain ⟨m, rfl⟩ := Nat.exists_eq_add_of_le hle
    obtain ⟨ws, u, -, hws, -⟩ := (Prog.run_times_add _ d n m r s).mp ⟨vs, hk⟩
    exact ⟨ws, u, hws⟩
  · obtain ⟨m, rfl⟩ := Nat.exists_eq_add_of_le hle
    obtain ⟨ws, hws⟩ := (Prog.run_times_add _ d k m r s).mpr ⟨vs, s, _, hk, run_times_stuck hv m⟩
    exact ⟨ws, s, hws⟩

/-- Any count can be put in front of any place where elements may start. -/
theorem exists_length_before {r : CdrReader} (hr : r.AfterLength) (n : BitVec 32) :
    ∃ r₀ u : CdrReader, r₀.Ready ∧ r₀.buf.length = r.buf.length ∧ r.SameAhead u ∧
      (Decoder.alignTo 4).run (readStep true) r₀ = .ok ((), r₀) ∧
      Decoder.readUint32.run (readStep true) r₀ = .ok (n, u) := by
  obtain ⟨⟨⟨h4, hle⟩, hlt⟩, h8, hmod⟩ := hr
  have hhead : (r.buf.take (r.pos - 4)).length = r.pos - 4 := by
    rw [List.length_take]
    omega
  let w : CdrWriter := ⟨r.buf.take (r.pos - 4), by omega⟩
  have hoff : w.payloadOffset % 4 = 0 := by
    change ((r.buf.take (r.pos - 4)).length - 4) % 4 = 0
    omega
  let out := LittleEndian.toBytes 4 n.toNat
  have hout : (CdrWriter.writeUint32 n w).buf = w.buf ++ out := by
    rw [CdrWriter.writeUint32_buf, padding_eq_zero 4 _ hoff]
    rfl
  let b := w.buf ++ (out ++ r.buf.drop r.pos)
  have hlen : b.length = r.buf.length := by
    simp only [b, out, List.length_append, List.length_drop, LittleEndian.toBytes_length]
    rw [show w.buf.length = r.pos - 4 from hhead]
    omega
  have hbefore : StandsBefore ⟨b, r.pos - 4⟩ w out :=
    ⟨hhead.symm, by change r.pos - 4 ≤ b.length; omega, ⟨r.buf.drop r.pos, (List.drop_left' hhead).symm⟩, by
      change b.length < 2^64
      omega⟩
  have hready : CdrReader.Ready ⟨b, r.pos - 4⟩ :=
    ⟨⟨by change 4 ≤ r.pos - 4; omega, by change r.pos - 4 ≤ b.length; omega⟩, by change b.length < 2^63; omega⟩
  obtain ⟨out', hout', hread⟩ := (ReadsBack.readUint32 n).exact (g := true) w
  obtain rfl : out = out' := List.append_cancel_left (hout.symm.trans hout')
  have hrun := hread _ hbefore
  have hpos : r.pos - 4 + out.length = r.pos := by
    rw [LittleEndian.toBytes_length]
    omega
  rw [hpos] at hrun
  refine ⟨⟨b, r.pos - 4⟩, ⟨b, r.pos⟩, hready, hlen, ⟨⟨⟨h4, hle⟩, hlt⟩, rfl, hlen, ?_⟩, ?_, hrun⟩
  · change b.drop r.pos = _
    rw [← hpos, ← List.drop_drop, List.drop_left' hhead, List.drop_left]
    rw [hpos]
  · rw [Decoder.run_alignTo, hready.inside.alignTo_eq hready.size_lt (by decide)]
    have hpad : padding 4 (r.pos - 4 - 4) = 0 := padding_eq_zero 4 _ (by omega)
    simp only [hpad, Nat.add_zero]
    rw [if_neg (by omega)]

/-- With the guard and without it, `read_sequence` accepts the same streams
exactly when no element is read from zero bytes. -/
theorem readSequence_guard_iff {fresh : T} {elem : T → Decoder T} (hm : (elem fresh).Modest) :
    (∀ r : CdrReader, r.Ready → ∀ vs s, (readSequence fresh elem).run (readStep true) r = .ok (vs, s) ↔
        (readSequenceUnguarded fresh elem).run (readStep true) r = .ok (vs, s)) ↔
      ElementsMove (elem fresh) := by
  refine ⟨fun hsame r hr hrem k vs s hk v s' hv => ?_, fun hmove r hr vs s => readSequence_of_move hm hmove hr vs s⟩
  by_contra hstuck
  -- the stuck element answers a count one larger than what is left
  obtain ⟨ws, e, hws⟩ := run_times_past_stuck hm hr.ready hk hv hstuck (r.buf.length - r.pos + 1)
  have hn : (BitVec.ofNat 32 (r.buf.length - r.pos + 1)).toNat = r.buf.length - r.pos + 1 := by
    rw [BitVec.toNat_ofNat, Nat.mod_eq_of_lt (by omega)]
  obtain ⟨r₀, u, hr₀, hlen, hu, halign, hlength⟩ :=
    exists_length_before hr (BitVec.ofNat 32 (r.buf.length - r.pos + 1))
  obtain ⟨e', he'⟩ := hu.run (Prog.uses_times hm _) hws
  have hopen : (readSequenceUnguarded fresh elem).run (readStep true) r₀ = .ok (ws, e') := by
    simp only [readSequenceUnguarded, Prog.bind_eq]
    rw [Prog.run_bind_ok _ halign, Prog.run_bind_ok _ hlength, hn]
    exact he'
  have hclosed := (hsame r₀ hr₀ ws e').mpr hopen
  simp only [readSequence, Prog.bind_eq] at hclosed
  have hfalse : (Decoder.guardRemaining (BitVec.ofNat 32 (r.buf.length - r.pos + 1)).toNat).run
      (readStep true) u = .error .returnFalse := by
    rw [Decoder.run_guardRemaining, CdrReader.guardRemaining, hn, hu.ready'.remaining_eq, hu.length_eq,
      hu.pos_eq, if_pos (Nat.lt_succ_self _)]
  rw [Prog.run_bind_ok _ halign, Prog.run_bind_ok _ hlength, Prog.run_bind_error _ hfalse] at hclosed
  cases hclosed

end ReadSequence

end Rcllite
