import Rcllite.Lib.Json

/-! `json_writer.hpp`: the escaper of the hand-built documents. It looks at single bytes, so what it makes
of a string is a JSON string exactly when the string is UTF-8. -/
namespace Rcllite
open Utf8 (literal)

def hexDigit (n : UInt8) : UInt8 := (literal "0123456789abcdef").getD n.toNat 0

/-- One turn of the loop in `json_escape_string`. -/
def jsonEscapeByte (c : UInt8) : List UInt8 :=
  if c = 0x22 then literal "\\\""
  else if c = 0x5c then literal "\\\\"
  else if c = 0x08 then literal "\\b"
  else if c = 0x0c then literal "\\f"
  else if c = 0x0a then literal "\\n"
  else if c = 0x0d then literal "\\r"
  else if c = 0x09 then literal "\\t"
  else if c < 0x20 then literal "\\u00" ++ [hexDigit (c >>> 4), hexDigit (c &&& 0xf)]
  else [c]

def jsonEscapeString (s : List UInt8) : List UInt8 := 0x22 :: s.flatMap jsonEscapeByte ++ [0x22]

theorem hexDigit_nibbles (c : UInt8) :
    Json.HexDigit (hexDigit (c >>> 4)) ∧ Json.HexDigit (hexDigit (c &&& 0xf)) := by
  have hall : ∀ k < 16, Json.HexDigit ((literal "0123456789abcdef").getD k 0) := by decide
  have hc := UInt8.toNat_lt c
  constructor
  · apply hall
    simp [Nat.shiftRight_eq_div_pow]
    omega
  · apply hall
    rw [UInt8.toNat_and]
    exact Nat.lt_of_le_of_lt Nat.and_le_right (by decide)

/-- What the escaper writes: one of two kinds of escapes, for an ASCII byte only, or the byte itself. -/
theorem jsonEscapeByte_forms (c : UInt8) :
    (c < 0x80 ∧ ∃ x ∈ [0x22, 0x5c, 0x2f, 0x62, 0x66, 0x6e, 0x72, 0x74], jsonEscapeByte c = [0x5c, x]) ∨
      (c < 0x80 ∧ ∃ a b, Json.HexDigit a ∧ Json.HexDigit b ∧ jsonEscapeByte c = [0x5c, 0x75, 0x30, 0x30, a, b]) ∨
      (0x20 ≤ c ∧ c ≠ 0x22 ∧ c ≠ 0x5c ∧ jsonEscapeByte c = [c]) := by
  by_cases h1 : c = 0x22
  · subst h1
    exact .inl ⟨by decide, 0x22, by decide, by decide⟩
  by_cases h2 : c = 0x5c
  · subst h2
    exact .inl ⟨by decide, 0x5c, by decide, by decide⟩
  by_cases h3 : c = 0x08
  · subst h3
    exact .inl ⟨by decide, 0x62, by decide, by decide⟩
  by_cases h4 : c = 0x0c
  · subst h4
    exact .inl ⟨by decide, 0x66, by decide, by decide⟩
  by_cases h5 : c = 0x0a
  · subst h5
    exact .inl ⟨by decide, 0x6e, by decide, by decide⟩
  by_cases h6 : c = 0x0d
  · subst h6
    exact .inl ⟨by decide, 0x72, by decide, by decide⟩
  by_cases h7 : c = 0x09
  · subst h7
    exact .inl ⟨by decide, 0x74, by decide, by decide⟩
  rw [jsonEscapeByte, if_neg h1, if_neg h2, if_neg h3, if_neg h4, if_neg h5, if_neg h6, if_neg h7]
  by_cases h8 : c < 0x20
  · have hlt : c < 0x80 := UInt8.lt_trans h8 (by decide)
    rw [if_pos h8]
    exact .inr (.inl ⟨hlt, _, _, (hexDigit_nibbles c).1, (hexDigit_nibbles c).2, rfl⟩)
  · rw [if_neg h8]
    exact .inr (.inr ⟨UInt8.not_lt.mp h8, h1, h2, rfl⟩)

/-- The two kinds of bytes the escaper knows: an ASCII byte becomes a character of a JSON string, and any
other is copied. -/
theorem jsonEscapeByte_cases (c : UInt8) :
    (c < 0x80 ∧ Json.Character (jsonEscapeByte c)) ∨ (0x80 ≤ c ∧ jsonEscapeByte c = [c]) := by
  rcases jsonEscapeByte_forms c with ⟨hlt, x, hx, heq⟩ | ⟨hlt, a, b, ha, hb, heq⟩ | ⟨hlow, hquote, hback, heq⟩
  · rw [heq]
    exact .inl ⟨hlt, .escaped x hx⟩
  · rw [heq]
    exact .inl ⟨hlt, .unicode 0x30 0x30 a b (by decide) (by decide) ha hb⟩
  · by_cases hbig : 0x80 ≤ c
    · exact .inr ⟨hbig, heq⟩
    · have hlt : c < 0x80 := UInt8.not_le.mp hbig
      rw [heq]
      exact .inl ⟨hlt, Json.Plain.character ⟨hlow, hlt, hquote, hback⟩⟩

/-- A UTF-8 string becomes a JSON string. -/
theorem chars_escaped {s : List UInt8} (h : Utf8 s) : Json.Chars (s.flatMap jsonEscapeByte) := by
  obtain ⟨cs, rfl⟩ := h
  rw [List.flatMap_assoc]
  induction cs with
  | nil => exact .nil
  | cons c cs ih =>
    rw [List.flatMap_cons]
    refine .cons ?_ ih
    rcases Utf8.encode_cases c with ⟨x, -, hx, henc⟩ | ⟨hbig, hall⟩
    · rw [henc, List.flatMap_singleton]
      rcases jsonEscapeByte_cases x with ⟨-, h⟩ | ⟨h, -⟩
      · exact h
      · exact absurd hx (UInt8.not_lt.mpr h)
    · -- a character of more than one byte is copied byte by byte
      have hcopy : (String.utf8EncodeChar c).flatMap jsonEscapeByte = String.utf8EncodeChar c := by
        have hone : ∀ x ∈ String.utf8EncodeChar c, jsonEscapeByte x = [x] := by
          intro x hx
          rcases jsonEscapeByte_cases x with ⟨h, -⟩ | ⟨-, h⟩
          · exact absurd h (UInt8.not_lt.mpr (hall x hx))
          · exact h
        rw [List.flatMap_congr hone]
        simp
      rw [hcopy]
      exact .unescaped c (by omega) (by omega) (by omega)

theorem derives_jsonEscapeString {s : List UInt8} (h : Utf8 s) : Json.Derives .value (jsonEscapeString s) :=
  .string (chars_escaped h)

theorem jsonEscapeByte_ascii {c : UInt8} (h : c < 0x80) : Ascii (jsonEscapeByte c) ∧ jsonEscapeByte c ≠ [] := by
  rcases jsonEscapeByte_forms c with ⟨-, x, hx, heq⟩ | ⟨-, a, b, ha, hb, heq⟩ | ⟨-, -, -, heq⟩
  · have hall : Ascii [0x22, 0x5c, 0x2f, 0x62, 0x66, 0x6e, 0x72, 0x74] := by decide
    rw [heq]
    exact ⟨List.forall_mem_cons.mpr ⟨by decide, List.forall_mem_singleton.mpr (hall x hx)⟩, List.cons_ne_nil _ _⟩
  · have hmark : Ascii [0x5c, 0x75, 0x30, 0x30] := by decide
    have hnibbles : Ascii [a, b] := List.forall_mem_cons.mpr ⟨ha.ascii, List.forall_mem_singleton.mpr hb.ascii⟩
    rw [heq]
    exact ⟨List.forall_mem_append.mpr ⟨hmark, hnibbles⟩, List.cons_ne_nil _ _⟩
  · rw [heq]
    exact ⟨List.forall_mem_singleton.mpr h, List.cons_ne_nil _ _⟩

/-- The escaper does not mend a string that is not UTF-8. -/
theorem utf8_of_escaped (s a : List UInt8) (h : Utf8 (a ++ s.flatMap jsonEscapeByte)) : Utf8 (a ++ s) := by
  induction s generalizing a with
  | nil => exact h
  | cons c s ih =>
    rw [List.flatMap_cons] at h
    rcases jsonEscapeByte_cases c with ⟨hlt, -⟩ | ⟨-, hcopy⟩
    · -- an ASCII byte is written as ASCII, so the text may be cut on either side of it
      obtain ⟨hascii, hne⟩ := jsonEscapeByte_ascii hlt
      obtain ⟨ha, hrest⟩ := Utf8.cut_ascii hascii hne h
      exact (Utf8.cut_iff hlt).mpr ⟨ha, ih [] hrest⟩
    · -- any other byte is copied, so it joins what stands before it
      rw [hcopy, ← List.append_assoc] at h
      rw [List.append_cons]
      exact ih (a ++ [c]) h

theorem utf8_of_jsonEscapeString {s : List UInt8} (h : Utf8 (jsonEscapeString s)) : Utf8 s :=
  utf8_of_escaped s [] (Json.utf8_between (by decide) (by decide) h)

end Rcllite
