import Mathlib.Data.List.Forall2
import Rcllite.Lib.Json

/-! Cutting a JSON text into tokens, with the strings decoded. The text is taken to be UTF-8, so that an
unescaped byte of a string stands for itself; outside strings every byte is a token. -/
namespace Json

inductive Token where
  | byte (x : UInt8)
  | str (content : List UInt8)
deriving DecidableEq, Repr

/-- A string between its quotation marks: bytes, and the numbers of `\u` escapes. -/
abbrev StringUnit := UInt8 ⊕ ℕ

def IsSurrogate (n : ℕ) : Prop := 0xd800 ≤ n ∧ n < 0xe000

instance (n : ℕ) : Decidable (IsSurrogate n) := inferInstanceAs (Decidable (_ ∧ _))

/-- What the units stand for. A pair of surrogates is one character. A lone surrogate has no UTF-8, and its escape
is refused here; the `json.loads` of Python accepts it. -/
def meaning : List StringUnit → Option (List UInt8)
  | [] => some []
  | .inl x :: us => (meaning us).map (x :: ·)
  | .inr n :: us =>
    if IsSurrogate n then
      match us with
      | .inr m :: us' =>
        if n < 0xdc00 ∧ 0xdc00 ≤ m ∧ m < 0xe000 then
          (meaning us').map (String.utf8EncodeChar (Char.ofNat (0x10000 + (n - 0xd800)*0x400 + (m - 0xdc00))) ++ ·)
        else none
      | _ => none
    else (meaning us).map (String.utf8EncodeChar (Char.ofNat n) ++ ·)

theorem meaning_code {n : ℕ} (h : ¬ IsSurrogate n) (us : List StringUnit) :
    meaning (.inr n :: us) = (meaning us).map (String.utf8EncodeChar (Char.ofNat n) ++ ·) := by
  rcases us with _ | ⟨x | m, us⟩ <;> simp only [meaning, if_neg h]

/-- The letter of a two-character escape. -/
def escapeValue (x : UInt8) : Option UInt8 :=
  if x = 0x22 ∨ x = 0x5c ∨ x = 0x2f then some x
  else if x = 0x62 then some 0x08
  else if x = 0x66 then some 0x0c
  else if x = 0x6e then some 0x0a
  else if x = 0x72 then some 0x0d
  else if x = 0x74 then some 0x09
  else none

def hexValue (x : UInt8) : Option ℕ :=
  if 0x30 ≤ x ∧ x ≤ 0x39 then some (x.toNat - 0x30)
  else if 0x41 ≤ x ∧ x ≤ 0x46 then some (x.toNat - 0x37)
  else if 0x61 ≤ x ∧ x ≤ 0x66 then some (x.toNat - 0x57)
  else none

/-- Where the scan of a text stands; the units of a string come last first. -/
inductive LexState where
  | outside
  | inside (units : List StringUnit)
  | escape (units : List StringUnit)
  | hex (units : List StringUnit) (count value : ℕ)

def lexFrom : LexState → List UInt8 → Option (List Token)
  | .outside, [] => some []
  | .inside _, [] | .escape _, [] | .hex _ _ _, [] => none
  | .outside, x :: b => if x = 0x22 then lexFrom (.inside []) b else (lexFrom .outside b).map (.byte x :: ·)
  | .inside us, x :: b =>
    if x = 0x22 then (meaning us.reverse).bind (fun s => (lexFrom .outside b).map (.str s :: ·))
    else if x = 0x5c then lexFrom (.escape us) b
    else if x < 0x20 then none
    else lexFrom (.inside (.inl x :: us)) b
  | .escape us, x :: b =>
    if x = 0x75 then lexFrom (.hex us 0 0) b
    else
      match escapeValue x with
      | some y => lexFrom (.inside (.inl y :: us)) b
      | none => none
  | .hex us count value, x :: b =>
    match hexValue x with
    | some d =>
      if count = 3 then lexFrom (.inside (.inr (16*value + d) :: us)) b
      else lexFrom (.hex us (count + 1) (16*value + d)) b
    | none => none

def lex (b : List UInt8) : Option (List Token) := lexFrom .outside b

/-- The structure of a text: its tokens, whatever the strings say. -/
def skeleton (ts : List Token) : List (Option UInt8) :=
  ts.map (fun t => match t with
    | .byte x => some x
    | .str _ => none)

/-- The text contributes these tokens to every text that it starts. -/
def Lexes (b : List UInt8) (ts : List Token) : Prop :=
  ∀ rest, lexFrom .outside (b ++ rest) = (lexFrom .outside rest).map (ts ++ ·)

namespace Lexes

theorem nil : Lexes [] [] := by
  intro rest
  cases h : lexFrom .outside rest <;> simp [h]

theorem append {a b : List UInt8} {ts us : List Token} (ha : Lexes a ts) (hb : Lexes b us) :
    Lexes (a ++ b) (ts ++ us) := by
  intro rest
  rw [List.append_assoc, ha, hb, Option.map_map]
  congr 1
  funext vs
  exact (List.append_assoc ts us vs).symm

/-- A byte outside strings. -/
theorem byte {x : UInt8} (hx : x ≠ 0x22) {b : List UInt8} {ts : List Token} (hb : Lexes b ts) :
    Lexes (x :: b) (.byte x :: ts) := by
  intro rest
  rw [List.cons_append, lexFrom, if_neg hx, hb, Option.map_map]
  rfl

theorem bytes {b : List UInt8} (hb : 0x22 ∉ b) : Lexes b (b.map .byte) := by
  induction b with
  | nil => exact nil
  | cons x b ih =>
    obtain ⟨hx, hb⟩ := not_or.mp (fun h => hb (List.mem_cons.mpr h))
    exact byte (fun h => hx h.symm) (ih hb)

theorem lex {b : List UInt8} {ts : List Token} (h : Lexes b ts) : Json.lex b = some ts := by
  have hall := h []
  rwa [List.append_nil, lexFrom, Option.map_some, List.append_nil] at hall

end Lexes

section PlainStrings

/-- A run of bytes that need no escape is its own content. -/
theorem meaning_bytes (b : List UInt8) : meaning (b.map .inl) = some b := by
  induction b with
  | nil => rfl
  | cons x b ih =>
    rw [List.map_cons, meaning, ih]
    rfl

theorem lexFrom_plain {b : List UInt8} (hb : ∀ x ∈ b, Plain x) (us : List StringUnit) (rest : List UInt8) :
    lexFrom (.inside us) (b ++ 0x22 :: rest) = lexFrom (.inside ((b.map .inl).reverse ++ us)) (0x22 :: rest) := by
  induction b generalizing us with
  | nil => rfl
  | cons x b ih =>
    obtain ⟨⟨hlow, -, hquote, hback⟩, hb⟩ := List.forall_mem_cons.mp hb
    rw [List.cons_append, lexFrom, if_neg hquote, if_neg hback, if_neg (UInt8.not_lt.mpr hlow), ih hb,
      List.map_cons, List.reverse_cons, List.append_assoc]
    rfl

theorem lexes_plainString {b : List UInt8} (hb : ∀ x ∈ b, Plain x) : Lexes (0x22 :: b ++ [0x22]) [.str b] := by
  intro rest
  rw [List.cons_append, List.cons_append, List.append_assoc, List.singleton_append, lexFrom, if_pos rfl,
    lexFrom_plain hb, lexFrom, if_pos rfl, List.append_nil, List.reverse_reverse, meaning_bytes]
  rfl

end PlainStrings

/-- Two texts with the same tokens but for what their strings say. -/
def SameStructure (b b' : List UInt8) : Prop :=
  ∃ ts ts', lex b = some ts ∧ lex b' = some ts' ∧ skeleton ts = skeleton ts'

/-- The same of two texts that may go on. -/
def Alike (b b' : List UInt8) : Prop := ∃ ts ts', Lexes b ts ∧ Lexes b' ts' ∧ skeleton ts = skeleton ts'

namespace Alike

theorem sameStructure {b b' : List UInt8} (h : Alike b b') : SameStructure b b' := by
  obtain ⟨ts, ts', hb, hb', hsame⟩ := h
  exact ⟨ts, ts', hb.lex, hb'.lex, hsame⟩

theorem refl {b : List UInt8} {ts : List Token} (h : Lexes b ts) : Alike b b := ⟨ts, ts, h, h, rfl⟩

/-- Strings, whatever they say. -/
theorem strings {b b' s s' : List UInt8} (h : Lexes b [.str s]) (h' : Lexes b' [.str s']) : Alike b b' :=
  ⟨_, _, h, h', rfl⟩

theorem append {a a' b b' : List UInt8} (ha : Alike a a') (hb : Alike b b') : Alike (a ++ b) (a' ++ b') := by
  obtain ⟨ts, ts', ha, ha', hts⟩ := ha
  obtain ⟨us, us', hb, hb', hus⟩ := hb
  refine ⟨ts ++ us, ts' ++ us', ha.append hb, ha'.append hb', ?_⟩
  have hsplit (l l' : List Token) : skeleton (l ++ l') = skeleton l ++ skeleton l' := List.map_append
  rw [hsplit, hsplit, hts, hus]

theorem byte {x : UInt8} (hx : x ≠ 0x22) {b b' : List UInt8} (h : Alike b b') : Alike (x :: b) (x :: b') := by
  have hone : Alike [x] [x] := refl (.byte hx .nil)
  exact hone.append h

theorem separated {items items' : List (List UInt8)} (h : List.Forall₂ Alike items items') :
    Alike (Json.separated items) (Json.separated items') := by
  induction h with
  | nil => exact refl .nil
  | cons ha hrest ih =>
    cases hrest with
    | nil =>
      rw [separated_singleton, separated_singleton]
      exact ha
    | cons hb hrest =>
      rw [separated_cons, separated_cons]
      exact ha.append (byte (by decide) ih)

/-- A section written twice, entry by entry. -/
theorem array {α : Type*} {l : List α} {text text' : α → List UInt8} (h : ∀ a ∈ l, Alike (text a) (text' a)) :
    Alike (Json.array (l.map text)) (Json.array (l.map text')) := by
  have hall : List.Forall₂ Alike (l.map text) (l.map text') := by
    rw [List.forall₂_map_left_iff, List.forall₂_map_right_iff]
    exact List.forall₂_same.mpr h
  exact byte (by decide) ((separated hall).append (byte (by decide) (refl .nil)))

theorem object {fields fields' : List (List UInt8 × List UInt8)} (hn : plainNames fields = true)
    (h : List.Forall₂ (fun f f' => f.1 = f'.1 ∧ Alike f.2 f'.2) fields fields') :
    Alike (Json.object fields) (Json.object fields') := by
  have hplain : ∀ f ∈ fields, ∀ x ∈ f.1, Plain x := by
    intro f hf
    simpa using List.all_eq_true.mp hn f hf
  have hall : List.Forall₂ Alike (fields.map (fun f => field f.1 f.2)) (fields'.map (fun f => field f.1 f.2)) := by
    rw [List.forall₂_map_left_iff, List.forall₂_map_right_iff]
    refine (List.forall₂_and_left _ _ |>.mpr ⟨hplain, h⟩).imp ?_
    rintro f f' ⟨hf, hname, hvalue⟩
    have hboth := (refl (lexes_plainString hf)).append (byte (x := 0x3a) (by decide) hvalue)
    rw [← hname]
    simpa [field] using hboth
  exact byte (by decide) ((separated hall).append (byte (by decide) (refl .nil)))

end Alike

/-- The byte behind `a` is escaped: an odd number of backslashes stands before it. -/
def Escapes (a : List UInt8) : Prop := (a.reverse.takeWhile (· = 0x5c)).length % 2 = 1

theorem escapes_backslash (a : List UInt8) : Escapes (a ++ [0x5c]) ↔ ¬ Escapes a := by
  unfold Escapes
  rw [List.reverse_append, List.reverse_singleton, List.singleton_append, List.takeWhile_cons_of_pos (by decide),
    List.length_cons]
  omega

theorem not_escapes_other {x : UInt8} (hx : x ≠ 0x5c) (a : List UInt8) : ¬ Escapes (a ++ [x]) := by
  unfold Escapes
  rw [List.reverse_append, List.reverse_singleton, List.singleton_append,
    List.takeWhile_cons_of_neg (by simpa using hx)]
  exact Nat.zero_ne_one

end Json
