import Mathlib.Data.List.Basic
import Mathlib.Tactic.Common

/-! Byte strings that are UTF-8. A character is encoded either by one byte below `0x80`, or by bytes
none of which is: so a text may be cut before and after any ASCII byte. -/

/-- The encoding of some sequence of characters. -/
def Utf8 (b : List UInt8) : Prop := ∃ cs : List Char, b = cs.flatMap String.utf8EncodeChar

def Ascii (b : List UInt8) : Prop := ∀ x ∈ b, x < 0x80

-- by the list, not by the 256 bytes
instance (b : List UInt8) : Decidable (Ascii b) := List.decidableBAll (fun x => x < 0x80) b

namespace Utf8

/-- The bytes of a string literal. -/
def literal (s : String) : List UInt8 := s.toUTF8.data.toList

theorem nil : Utf8 [] := ⟨[], rfl⟩

theorem append {a b : List UInt8} (ha : Utf8 a) (hb : Utf8 b) : Utf8 (a ++ b) := by
  obtain ⟨cs, rfl⟩ := ha
  obtain ⟨ds, rfl⟩ := hb
  exact ⟨cs ++ ds, List.flatMap_append.symm⟩

theorem encode (c : Char) : Utf8 (String.utf8EncodeChar c) := ⟨[c], by simp⟩

/-- The two shapes of an encoded character. -/
theorem encode_cases (c : Char) :
    (∃ x, x.toNat = c.val.toNat ∧ x < 0x80 ∧ String.utf8EncodeChar c = [x]) ∨
      (0x80 ≤ c.val.toNat ∧ ∀ x ∈ String.utf8EncodeChar c, 0x80 ≤ x) := by
  unfold String.utf8EncodeChar
  dsimp only
  split_ifs with h1 h2 h3
  · left
    refine ⟨_, ?_, ?_, rfl⟩
    · simp only [UInt8.toNat_ofNat']
      omega
    · rw [UInt8.lt_iff_toNat_lt, UInt8.toNat_ofNat']
      change _ % 2^8 < 128
      omega
  all_goals
    right
    refine ⟨by omega, ?_⟩
    simp only [List.mem_cons, List.not_mem_nil, or_false, forall_eq_or_imp, forall_eq, UInt8.le_iff_toNat_le,
      UInt8.toNat_ofNat']
    change 128 ≤ _ % 2^8 ∧ _
    simp only [UInt8.reduceToNat]
    omega

/-- An ASCII byte in the encoding of a character is all of it. -/
theorem encode_eq_singleton {c : Char} {x : UInt8} (hx : x ∈ String.utf8EncodeChar c) (h : x < 0x80) :
    String.utf8EncodeChar c = [x] := by
  rcases encode_cases c with ⟨y, -, -, hy⟩ | ⟨-, hbig⟩
  · rw [hy] at hx ⊢
    rw [List.mem_singleton.mp hx]
  · exact absurd (hbig x hx) (UInt8.not_le.mpr h)

/-- The character of an ASCII byte. -/
theorem exists_char {x : UInt8} (h : x < 0x80) :
    ∃ c : Char, c.val.toNat = x.toNat ∧ String.utf8EncodeChar c = [x] := by
  have hlt : x.toNat < 128 := UInt8.lt_iff_toNat_lt.mp h
  have hval : (x.toNat).isValidChar := Or.inl (by omega)
  have hnat : (Char.ofNat x.toNat).val.toNat = x.toNat := by
    rw [Char.ofNat, dif_pos hval]
    rfl
  refine ⟨Char.ofNat x.toNat, hnat, ?_⟩
  rcases encode_cases (Char.ofNat x.toNat) with ⟨y, hy, -, henc⟩ | ⟨hbig, -⟩
  · rw [henc, UInt8.toNat_inj.mp (hy.trans hnat)]
  · rw [hnat] at hbig
    omega

theorem singleton {x : UInt8} (h : x < 0x80) : Utf8 [x] := by
  obtain ⟨c, -, henc⟩ := exists_char h
  rw [← henc]
  exact encode c

theorem of_ascii {b : List UInt8} (h : Ascii b) : Utf8 b := by
  induction b with
  | nil => exact nil
  | cons x b ih =>
    obtain ⟨hx, hb⟩ := List.forall_mem_cons.mp h
    exact (singleton hx).append (ih hb)

/-- A text may be cut at an ASCII byte. -/
theorem cut {a b : List UInt8} {x : UInt8} (hx : x < 0x80) (h : Utf8 (a ++ x :: b)) : Utf8 a ∧ Utf8 b := by
  obtain ⟨cs, hcs⟩ := h
  induction cs generalizing a with
  | nil => simp at hcs
  | cons c cs ih =>
    rw [List.flatMap_cons] at hcs
    rcases List.append_eq_append_iff.mp hcs with ⟨e, he, hrest⟩ | ⟨e, he, hrest⟩
    · cases e with
      | nil =>
        -- the character ends where the cut is
        rw [List.append_nil] at he
        rw [← he]
        exact ⟨encode c, (ih (a := []) hrest).2⟩
      | cons y e =>
        rw [List.cons_append, List.cons.injEq] at hrest
        obtain ⟨rfl, hb⟩ := hrest
        have hmem : x ∈ String.utf8EncodeChar c := by
          rw [he]
          exact List.mem_append_right _ List.mem_cons_self
        have hone := encode_eq_singleton hmem hx
        rw [hone, List.singleton_eq_append_iff] at he
        rcases he with ⟨rfl, hcons⟩ | ⟨-, hcons⟩
        · rw [List.cons.injEq] at hcons
          rw [hb, hcons.2]
          exact ⟨nil, cs, rfl⟩
        · cases hcons
    · obtain ⟨h1, h2⟩ := ih (a := e) hrest.symm
      rw [he]
      exact ⟨(encode c).append h1, h2⟩

theorem cut_iff {a b : List UInt8} {x : UInt8} (hx : x < 0x80) : Utf8 (a ++ x :: b) ↔ Utf8 a ∧ Utf8 b := by
  refine ⟨cut hx, fun h => ?_⟩
  have hone := (singleton hx).append h.2
  exact h.1.append hone

/-- ASCII in front does not matter. -/
theorem ascii_append_iff {a b : List UInt8} (ha : Ascii a) : Utf8 (a ++ b) ↔ Utf8 b := by
  induction a with
  | nil => exact Iff.rfl
  | cons x a ih =>
    obtain ⟨hx, ha⟩ := List.forall_mem_cons.mp ha
    have hcut := cut_iff (a := []) (b := a ++ b) hx
    rw [List.cons_append, ← List.nil_append (x :: _), hcut]
    exact ⟨fun h => (ih ha).mp h.2, fun h => ⟨nil, (ih ha).mpr h⟩⟩

theorem cut_ascii {a m b : List UInt8} (hm : Ascii m) (hne : m ≠ []) (h : Utf8 (a ++ (m ++ b))) :
    Utf8 a ∧ Utf8 b := by
  cases m with
  | nil => exact absurd rfl hne
  | cons x m =>
    obtain ⟨hx, hm⟩ := List.forall_mem_cons.mp hm
    obtain ⟨ha, hmb⟩ := cut hx h
    exact ⟨ha, (ascii_append_iff hm).mp hmb⟩

end Utf8
