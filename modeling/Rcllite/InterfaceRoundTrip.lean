import Rcllite.InterfaceLines

/-! Definitions in `.msg` syntax, printed with any layout, and what `parse_msg` reads from them. -/
namespace Rcllite.Interface
open PyText Regex

section Pieces

/-- Spaces and tabs. -/
structure Blanks where
  text : List Char
  blank : ∀ c ∈ text, c = ' ' ∨ c = '\t'

structure Gap extends Blanks where
  nonempty : text ≠ []

/-- Free text up to the end of the line. -/
structure Remark where
  text : List Char
  oneLine : ∀ c ∈ text, isLineBreak c = false

structure Ident where
  head : Char
  tail : List Char
  head_ok : identHead head = true
  tail_ok : ∀ c ∈ tail, identTail c = true

/-- `[A-Z_][A-Z0-9_]*` -/
structure ConstName where
  head : Char
  tail : List Char
  head_ok : constHead head = true
  tail_ok : ∀ c ∈ tail, constTail c = true

/-- `[a-z][A-Za-z0-9_]*` -/
structure MemberName where
  head : Char
  tail : List Char
  head_ok : isLower head = true
  tail_ok : ∀ c ∈ tail, identTail c = true

def Ident.text (n : Ident) : List Char := n.head :: n.tail
def ConstName.text (n : ConstName) : List Char := n.head :: n.tail
def MemberName.text (n : MemberName) : List Char := n.head :: n.tail

structure Number where
  text : List Char
  digits : Digits text

/-- Printable ASCII without a comment sign, a blank at neither end. -/
structure Default where
  text : List Char
  printable : ∀ c ∈ text, 0x20 ≤ c.toNat ∧ c.toNat ≤ 0x7e
  noComment : '#' ∉ text
  head : ∃ c ∈ text.head?, c ≠ ' '
  last : ∃ c ∈ text.getLast?, c ≠ ' '

inductive TypeSpec where
  | prim (p : Prim)
  | string
  | boundedString (n : Number)
  | nested (name : Ident)
      (free : name.text ∉ primKeys ∧ name.text ≠ "string".toList ∧ name.text ≠ "wstring".toList)
  | qualified (package name : Ident)

inductive Suffix where
  | none
  | sequence
  | bounded (n : Number)
  | array (n : Number)

def TypeSpec.text : TypeSpec → List Char
  | .prim p => key p
  | .string => "string".toList
  | .boundedString n => "string<=".toList ++ n.text
  | .nested name _ => name.text
  | .qualified package name => package.text ++ '/' :: name.text

/-- The type the member is given: bounded strings are strings, and a nested name without its package
belongs to the definition's own. -/
def TypeSpec.rosType (own : List Char) : TypeSpec → List Char
  | .prim p => key p
  | .string => "string".toList
  | .boundedString _ => "string".toList
  | .nested name _ => own ++ '/' :: name.text
  | .qualified package name => package.text ++ '/' :: name.text

/-- What stands inside the brackets. -/
def Suffix.inner : Suffix → Option (List Char)
  | .none => Option.none
  | .sequence => some []
  | .bounded n => some ('<' :: '=' :: n.text)
  | .array n => some n.text

def Suffix.bracket (s : Suffix) : Option (List Char) := s.inner.map fun inner => '[' :: (inner ++ [']'])

def Suffix.text (s : Suffix) : List Char := s.bracket.getD []

def Suffix.isSeq : Suffix → Bool
  | .sequence | .bounded _ => true
  | .none | .array _ => false

def Suffix.fixedLen : Suffix → Option ℤ
  | .array n => some (natOfText n.text)
  | .none | .sequence | .bounded _ => Option.none

/-- The number of an array suffix has no more digits than `int` takes. -/
def Suffix.Readable : Suffix → Prop
  | .array n => n.text.length ≤ intMaxStrDigits
  | .none | .sequence | .bounded _ => True

end Pieces

section Lines

def commentText : Option Remark → List Char
  | none => []
  | some comment => '#' :: comment.text

/-- A member line but for its type. -/
structure MemberLine where
  lead : Blanks
  suffix : Suffix
  gap : Gap
  name : MemberName
  default : Option (Gap × Default)
  trail : Blanks
  comment : Option Remark

def MemberLine.defaultText (m : MemberLine) : List Char :=
  match m.default with
  | none => []
  | some (gap, d) => gap.text ++ d.text

def MemberLine.body (m : MemberLine) (type : List Char) : List Char :=
  type ++ (m.suffix.text ++ (m.gap.text ++ (m.name.text ++ m.defaultText)))

def MemberLine.render (m : MemberLine) (type : List Char) : List Char :=
  m.lead.text ++ (m.body type ++ (m.trail.text ++ commentText m.comment))

inductive Line where
  /-- A blank line or a comment line. -/
  | remark (lead : Blanks) (comment : Option Remark)
  /-- `TYPE NAME=VALUE`, the type an identifier, the value with whatever follows it on the line. -/
  | constant (lead : Blanks) (type : Ident) (gap : Gap) (name : ConstName) (before : Blanks) (value : Remark)
  | member (type : TypeSpec) (m : MemberLine)

def Line.render : Line → List Char
  | .remark lead comment => lead.text ++ commentText comment
  | .constant lead type gap name before value =>
    lead.text ++ (type.text ++ (gap.text ++ (name.text ++ (before.text ++ '=' :: value.text))))
  | .member type m => m.render type.text

/-- The member a line declares. -/
def Line.member? (package : List Char) : Line → Option Member
  | .member type m =>
    some { rosType := type.rosType package, name := m.name.text, isSeq := m.suffix.isSeq,
           fixedLen := m.suffix.fixedLen, default := (m.default.map fun d => d.2.text).getD [] }
  | .remark _ _ | .constant _ _ _ _ _ _ => none

def Line.Readable : Line → Prop
  | .member _ m => m.suffix.Readable
  | .remark _ _ | .constant _ _ _ _ _ _ => True

/-- The text of a definition, one line after the other. -/
def printed (lines : List Line) : List Char := unlines (lines.map Line.render)

end Lines

section Clean

/-- Neither a comment sign nor the end of a line. -/
def Clean (c : Char) : Prop := c ≠ '#' ∧ isLineBreak c = false

theorem isLineBreak_of_ascii {c : Char} (h : 0x20 ≤ c.toNat ∧ c.toNat ≤ 0x7e) : isLineBreak c = false := by
  simp only [isLineBreak, Bool.or_eq_false_iff, Bool.and_eq_false_iff, decide_eq_false_iff_not,
    beq_eq_false_iff_ne]
  omega

theorem clean_of_typeTail {c : Char} (h : typeTail c = true) : Clean c := by
  refine ⟨beq_eq_false_iff_ne.mp (beq_of_class h '#' (by decide)), isLineBreak_of_ascii ?_⟩
  rw [typeTail_iff] at h
  omega

theorem clean_of_identTail {c : Char} (h : identTail c = true) : Clean c :=
  clean_of_typeTail (typeTail_of_identTail h)

theorem Blanks.clean (b : Blanks) : ∀ c ∈ b.text, Clean c := by
  intro c hc
  rcases b.blank c hc with rfl | rfl
  · exact ⟨by decide, by decide⟩
  · exact ⟨by decide, by decide⟩

theorem Blanks.space (b : Blanks) : ∀ c ∈ b.text, isSpace c = true := by
  intro c hc
  rcases b.blank c hc with rfl | rfl
  · decide
  · decide

theorem Number.clean (n : Number) : ∀ c ∈ n.text, Clean c :=
  fun c hc => clean_of_identTail (identTail_of_digit (n.digits.2 c hc))

theorem Default.clean (d : Default) : ∀ c ∈ d.text, Clean c := by
  intro c hc
  refine ⟨?_, isLineBreak_of_ascii (d.printable c hc)⟩
  rintro rfl
  exact d.noComment hc

theorem Default.not_space (d : Default) {c : Char} (hc : c ∈ d.text) (hne : c ≠ ' ') : isSpace c = false := by
  have hp := d.printable c hc
  have hblank : c.toNat ≠ 0x20 := fun h => hne (eq_iff_toNat.mpr h)
  simp only [isSpace, Bool.or_eq_false_iff, Bool.and_eq_false_iff, decide_eq_false_iff_not, beq_eq_false_iff_ne]
  omega

theorem Ident.mem_text {n : Ident} {c : Char} (h : c ∈ n.text) : identTail c = true := by
  rcases List.mem_cons.mp h with rfl | h
  · exact identTail_of_identHead n.head_ok
  · exact n.tail_ok c h

theorem Ident.clean (n : Ident) : ∀ c ∈ n.text, Clean c := fun _ hc => clean_of_identTail (Ident.mem_text hc)

theorem ConstName.clean (n : ConstName) : ∀ c ∈ n.text, Clean c := by
  intro c hc
  rcases List.mem_cons.mp hc with rfl | hc
  · exact clean_of_identTail (identTail_of_constTail (constTail_of_constHead n.head_ok))
  · exact clean_of_identTail (identTail_of_constTail (n.tail_ok c hc))

theorem MemberName.clean (n : MemberName) : ∀ c ∈ n.text, Clean c := by
  intro c hc
  rcases List.mem_cons.mp hc with rfl | hc
  · exact clean_of_identTail (identTail_of_identHead (identHead_of_isLower n.head_ok))
  · exact clean_of_identTail (n.tail_ok c hc)

theorem Suffix.clean (s : Suffix) : ∀ c ∈ s.text, Clean c := by
  have hbracket {inner : List Char} (h : ∀ c ∈ inner, Clean c) : ∀ c ∈ '[' :: (inner ++ [']']), Clean c := by
    intro c hc
    rcases List.mem_cons.mp hc with rfl | hc
    · exact ⟨by decide, by decide⟩
    · rcases List.mem_append.mp hc with hc | hc
      · exact h c hc
      · rw [List.mem_singleton.mp hc]
        exact ⟨by decide, by decide⟩
  cases s with
  | none => exact fun c hc => absurd hc (List.not_mem_nil)
  | sequence => exact hbracket (by simp)
  | bounded n =>
    refine hbracket fun c hc => ?_
    rcases List.mem_cons.mp hc with rfl | hc
    · exact ⟨by decide, by decide⟩
    · rcases List.mem_cons.mp hc with rfl | hc
      · exact ⟨by decide, by decide⟩
      · exact n.clean c hc
  | array n => exact hbracket n.clean

end Clean

section Types

/-- A type as the member expression spells it: a name, with slashes, and a bound at most. -/
def Spelled (type : List Char) : Prop :=
  ∃ h t bound, identHead h = true ∧ (∀ c ∈ t, typeTail c = true) ∧ Bound bound ∧ type = h :: (t ++ bound)

theorem spelled_plain {h : Char} {t : List Char} (hh : identHead h = true) (ht : ∀ c ∈ t, typeTail c = true) :
    Spelled (h :: t) :=
  ⟨h, t, [], hh, ht, .inl rfl, by rw [List.append_nil]⟩

theorem spelled_key (p : Prim) : Spelled (key p) := by
  cases p <;> exact spelled_plain (by decide) (by decide)

theorem TypeSpec.spelled (t : TypeSpec) : Spelled t.text := by
  cases t with
  | prim p => exact spelled_key p
  | string => exact spelled_plain (by decide) (by decide)
  | boundedString n =>
    exact ⟨'s', "tring".toList, '<' :: '=' :: n.text, by decide, by decide, .inr ⟨n.text, n.digits, rfl⟩, rfl⟩
  | nested name free => exact spelled_plain name.head_ok fun c hc => typeTail_of_identTail (name.tail_ok c hc)
  | qualified package name =>
    refine spelled_plain package.head_ok fun c hc => ?_
    rcases List.mem_append.mp hc with hc | hc
    · exact typeTail_of_identTail (package.tail_ok c hc)
    · rcases List.mem_cons.mp hc with rfl | hc
      · decide
      · rcases List.mem_cons.mp hc with rfl | hc
        · exact typeTail_of_identTail (identTail_of_identHead name.head_ok)
        · exact typeTail_of_identTail (name.tail_ok c hc)

theorem Spelled.clean {type : List Char} (h : Spelled type) : ∀ c ∈ type, Clean c := by
  obtain ⟨h, t, bound, hh, ht, hbound, rfl⟩ := h
  intro c hc
  rcases List.mem_cons.mp hc with rfl | hc
  · exact clean_of_identTail (identTail_of_identHead hh)
  · rcases List.mem_append.mp hc with hc | hc
    · exact clean_of_typeTail (ht c hc)
    · rcases hbound with rfl | ⟨ds, hds, rfl⟩
      · cases hc
      · rcases List.mem_cons.mp hc with rfl | hc
        · exact ⟨by decide, by decide⟩
        · rcases List.mem_cons.mp hc with rfl | hc
          · exact ⟨by decide, by decide⟩
          · exact clean_of_identTail (identTail_of_digit (hds.2 c hc))

theorem TypeSpec.ne_wstring (t : TypeSpec) : t.text ≠ "wstring".toList := by
  cases t with
  | prim p => cases p <;> decide
  | string => decide
  | boundedString n => exact fun h => absurd (List.head_eq_of_cons_eq h) (by decide)
  | nested name free => exact free.2.2
  | qualified package name =>
    intro h
    have hslash : '/' ∈ "wstring".toList := by
      rw [← h]
      exact List.mem_append_right _ List.mem_cons_self
    exact absurd hslash (by decide)

theorem not_bounded {text : List Char} (h : '<' ∉ text) :
    (if "string<=".toList.isPrefixOf text then "string".toList else text) = text := by
  refine if_neg fun hpre => h ?_
  exact (List.isPrefixOf_iff_prefix.mp hpre).subset (by decide)

theorem qualify_self {own text : List Char} (h : text ∈ primKeys ∨ text = "string".toList ∨ '/' ∈ text) :
    qualify own text = text := by
  refine if_neg ?_
  rintro ⟨hprim, hstring, hslash⟩
  rcases h with h | h | h
  · exact hprim h
  · exact hstring h
  · exact hslash h

/-- The type a type token is turned into. -/
def rosTypeOf (own text : List Char) : List Char :=
  qualify own (if "string<=".toList.isPrefixOf text then "string".toList else text)

theorem rosTypeOf_self {own text : List Char} (hplain : '<' ∉ text)
    (h : text ∈ primKeys ∨ text = "string".toList ∨ '/' ∈ text) : rosTypeOf own text = text := by
  rw [rosTypeOf, not_bounded hplain, qualify_self h]

theorem TypeSpec.rosTypeOf_text (own : List Char) (t : TypeSpec) : rosTypeOf own t.text = t.rosType own := by
  have hident {n : Ident} : '<' ∉ n.text := fun h => absurd (Ident.mem_text h) (by decide)
  cases t with
  | prim p =>
    have hplain : '<' ∉ key p := by cases p <;> decide
    have hkey : key p ∈ primKeys := by cases p <;> decide
    exact rosTypeOf_self hplain (.inl hkey)
  | string => exact rosTypeOf_self (by decide) (.inr (.inl rfl))
  | boundedString n =>
    have hbound : "string<=".toList.isPrefixOf ("string<=".toList ++ n.text) = true :=
      List.isPrefixOf_iff_prefix.mpr (List.prefix_append _ _)
    calc
      _ = qualify own "string".toList := congrArg (qualify own) (if_pos hbound)
      _ = "string".toList := qualify_self (.inr (.inl rfl))
  | nested name free =>
    have hslash : '/' ∉ name.text := fun h => absurd (Ident.mem_text h) (by decide)
    calc
      _ = qualify own name.text := congrArg (qualify own) (not_bounded hident)
      _ = _ := if_pos ⟨free.1, free.2.1, hslash⟩
  | qualified package name =>
    refine rosTypeOf_self ?_ (.inr (.inr (List.mem_append_right _ List.mem_cons_self)))
    intro h
    rcases List.mem_append.mp h with h | h
    · exact hident h
    · rcases List.mem_cons.mp h with h | h
      · exact absurd h (by decide)
      · exact hident h

end Types

section Brackets

theorem Suffix.inner_closed {s : Suffix} {inner : List Char} (h : s.inner = some inner) : ']' ∉ inner := by
  have hnumber (n : Number) : ']' ∉ n.text := fun hc => absurd (n.digits.2 _ hc) (by decide)
  cases s with
  | none => cases h
  | sequence =>
    cases h
    exact List.not_mem_nil
  | bounded n =>
    cases h
    intro hc
    rcases List.mem_cons.mp hc with hc | hc
    · exact absurd hc (by decide)
    · rcases List.mem_cons.mp hc with hc | hc
      · exact absurd hc (by decide)
      · exact hnumber n hc
  | array n =>
    cases h
    exact hnumber n

theorem inner_of_bracket (inner : List Char) : (('[' :: (inner ++ [']'])).drop 1).dropLast = inner := by
  rw [List.drop_succ_cons, List.drop_zero, List.dropLast_concat]

theorem parseBracket_array (n : Number) :
    parseBracket (some ('[' :: (n.text ++ [']']))) =
      if n.text.length ≤ intMaxStrDigits then .ok (false, some (natOfText n.text : ℤ)) else .error (.int n.text) := by
  have hempty : ¬ n.text.isEmpty = true := by
    rw [List.isEmpty_iff]
    exact n.digits.1
  have hbound : ¬ "<=".toList.isPrefixOf n.text = true := by
    rw [List.isPrefixOf_iff_prefix]
    intro hpre
    exact absurd (n.digits.2 '<' (hpre.subset (by decide))) (by decide)
  simp only [parseBracket, inner_of_bracket]
  rw [if_neg hempty, if_neg hbound, int?_digits n.digits]
  by_cases hlen : n.text.length ≤ intMaxStrDigits
  · rw [if_pos hlen, if_pos hlen]
  · rw [if_neg hlen, if_neg hlen]

theorem parseBracket_suffix {s : Suffix} (h : s.Readable) : parseBracket s.bracket = .ok (s.isSeq, s.fixedLen) := by
  cases s with
  | none => rfl
  | sequence => rfl
  | bounded n =>
    have hbound : "<=".toList.isPrefixOf ('<' :: '=' :: n.text) = true :=
      List.isPrefixOf_iff_prefix.mpr (List.prefix_append "<=".toList n.text)
    simp only [Suffix.bracket, Suffix.inner, Option.map_some, parseBracket, inner_of_bracket]
    rw [if_pos hbound]
    rfl
  | array n => exact (parseBracket_array n).trans (if_pos h)

end Brackets

section Reading

theorem atBracket_suffix (s : Suffix) (gap : Gap) {n : Char} {rest : List Char} (hn : isLower n = true)
    (g : Groups Char) :
    atBracket (s.text ++ (gap.text ++ n :: rest)) g = atName (n :: rest) (g.set 2 s.bracket) := by
  rw [Suffix.text, Suffix.bracket]
  cases hinner : s.inner with
  | none =>
    obtain ⟨c, cs, hgap⟩ := List.exists_cons_of_ne_nil gap.nonempty
    have hspace : isSpace c = true := gap.space c (by rw [hgap]; exact List.mem_cons_self)
    have hc : c ≠ '[' := beq_eq_false_iff_ne.mp (beq_of_class hspace '[' (by decide))
    rw [← atGap_gap gap.nonempty gap.space hn, hgap]
    exact atBracket_none hc g
  | some inner =>
    rw [← atGap_gap gap.nonempty gap.space hn]
    simp only [Option.map_some, Option.getD_some, List.cons_append, List.append_assoc]
    exact atBracket_bracket (Suffix.inner_closed hinner) g

theorem Suffix.afterType (s : Suffix) (gap : Gap) (rest : List Char) :
    ∃ d tail, s.text ++ (gap.text ++ rest) = d :: tail ∧ AfterType d := by
  rw [Suffix.text, Suffix.bracket]
  cases s.inner with
  | none =>
    obtain ⟨c, cs, hgap⟩ := List.exists_cons_of_ne_nil gap.nonempty
    refine ⟨c, cs ++ rest, by rw [hgap]; rfl, .inr (gap.blank c ?_)⟩
    rw [hgap]
    exact List.mem_cons_self
  | some inner => exact ⟨'[', inner ++ [']'] ++ (gap.text ++ rest), rfl, .inl rfl⟩

/-- The groups of the match of a member line. -/
def MemberLine.groups (m : MemberLine) (type : List Char) : Groups Char :=
  (((Groups.set (fun _ => none) 1 (some type)).set 2 m.suffix.bracket).set 3 (some m.name.text)).set 4
    (m.default.map fun d => d.2.text)

theorem atDefault_default (m : MemberLine) (g : Groups Char) :
    atDefault m.defaultText g = some (g.set 4 (m.default.map fun d => d.2.text)) := by
  rw [MemberLine.defaultText]
  cases m.default with
  | none => exact atDefault_nil g
  | some d =>
    obtain ⟨gap, d⟩ := d
    refine atDefault_text ⟨gap.nonempty, gap.space, ?_, ?_⟩ g
    · obtain ⟨c, hc, hne⟩ := d.head
      exact ⟨c, hc, d.not_space (List.mem_of_mem_head? hc) hne⟩
    · intro c hc
      rw [bne_iff_ne]
      rintro rfl
      exact absurd (d.clean _ hc).2 (by decide)

theorem MemberLine.defaultText_head (m : MemberLine) : ∀ c ∈ m.defaultText.head?, identTail c = false := by
  rw [MemberLine.defaultText]
  cases m.default with
  | none => simp
  | some d =>
    obtain ⟨gap, d⟩ := d
    exact fun c hc => identTail_of_isSpace (head?_append gap.nonempty gap.space c hc)

theorem matchStart_member (m : MemberLine) {type : List Char} (htype : Spelled type) :
    matchStart memberRe (m.body type) = some (m.groups type) := by
  obtain ⟨h, t, bound, hh, ht, hbound, rfl⟩ := htype
  obtain ⟨d, tail, hafter, hd⟩ := m.suffix.afterType m.gap (m.name.text ++ m.defaultText)
  rw [matchStart_memberRe, MemberLine.body, List.cons_append, List.append_assoc, hafter, atType hh ht hbound hd,
    ← hafter, MemberName.text, List.cons_append, atBracket_suffix _ _ m.name.head_ok,
    atName_name m.name.head_ok m.name.tail_ok m.defaultText_head, atDefault_default]
  rfl

theorem matchStart_member_constant (m : MemberLine) {type : List Char} (htype : Spelled type) :
    matchStart constantRe (m.body type) = none := by
  obtain ⟨h, t, bound, hh, ht, hbound, rfl⟩ := htype
  -- after the type comes a bound, a bracket, or the gap and a small letter: no constant has any of these
  have hmid : ∀ c ∈ (bound ++ m.suffix.text).head?, c = '<' ∨ c = '[' := by
    rcases hbound with rfl | ⟨ds, -, rfl⟩
    · rw [List.nil_append, Suffix.text, Suffix.bracket]
      cases m.suffix.inner with
      | none => simp
      | some inner =>
        rintro c ⟨⟩
        exact .inr rfl
    · rintro c ⟨⟩
      exact .inl rfl
  have hbody : m.body (h :: (t ++ bound)) =
      h :: (t ++ ((bound ++ m.suffix.text) ++ (m.gap.text ++ m.name.head :: (m.name.tail ++ m.defaultText)))) := by
    simp [MemberLine.body, MemberName.text]
  rw [hbody]
  exact matchStart_constant_none ht hmid m.gap.nonempty m.gap.space m.name.head_ok

theorem takeWhile_comment {s : List Char} (h : ∀ c ∈ s, Clean c) (comment : Option Remark) :
    (s ++ commentText comment).takeWhile (· ≠ '#') = s := by
  have hs : ∀ c ∈ s, decide (c ≠ '#') = true := fun c hc => decide_eq_true (h c hc).1
  rw [List.takeWhile_append_of_pos hs]
  cases comment with
  | none => exact List.append_nil s
  | some comment => exact List.append_nil s

theorem MemberLine.stripped (m : MemberLine) {type : List Char} (htype : Spelled type) : Stripped (m.body type) := by
  constructor
  · obtain ⟨h, t, bound, hh, -, -, rfl⟩ := htype
    rintro c ⟨⟩
    exact isSpace_of_identTail (identTail_of_identHead hh)
  · intro c hc
    have hne : m.name.text ++ m.defaultText ≠ [] :=
      List.append_ne_nil_of_left_ne_nil (List.cons_ne_nil m.name.head m.name.tail) _
    have htail : c ∈ (m.name.text ++ m.defaultText).getLast? := by
      rw [MemberLine.body, ← List.append_assoc, ← List.append_assoc, List.getLast?_append_of_ne_nil _ hne] at hc
      exact hc
    rw [MemberLine.defaultText] at htail
    cases hd : m.default with
    | none =>
      rw [hd, List.append_nil] at htail
      rcases List.mem_cons.mp (List.mem_of_mem_getLast? htail) with rfl | htail
      · exact isSpace_of_isLower m.name.head_ok
      · exact isSpace_of_identTail (m.name.tail_ok c htail)
    | some d =>
      obtain ⟨gap, d⟩ := d
      obtain ⟨e, he, hne⟩ := d.last
      have hdne : d.text ≠ [] := by
        rintro hnil
        rw [hnil] at he
        cases he
      rw [hd] at htail
      rw [← List.append_assoc, List.getLast?_append_of_ne_nil _ hdne] at htail
      obtain rfl : c = e := Option.mem_unique htail he
      exact d.not_space (List.mem_of_mem_getLast? he) hne

theorem MemberLine.clean (m : MemberLine) {type : List Char} (htype : Spelled type) :
    ∀ c ∈ m.body type, Clean c := by
  have hdefault : ∀ c ∈ m.defaultText, Clean c := by
    rw [MemberLine.defaultText]
    cases m.default with
    | none => simp
    | some d => exact List.forall_mem_append.mpr ⟨d.1.clean, d.2.clean⟩
  simp only [MemberLine.body, List.forall_mem_append]
  exact ⟨htype.clean, m.suffix.clean, m.gap.clean, m.name.clean, hdefault⟩

/-- A member line is read by the groups of its match. -/
theorem parseLine_member (package name : List Char) (m : MemberLine) {type : List Char} (htype : Spelled type) :
    parseLine package name (m.render type) = (memberOf package name (m.groups type)).map some := by
  have hline : strip ((m.render type).takeWhile (· ≠ '#')) = m.body type := by
    have hclean : ∀ c ∈ m.lead.text ++ (m.body type ++ m.trail.text), Clean c := by
      simp only [List.forall_mem_append]
      exact ⟨m.lead.clean, m.clean htype, m.trail.clean⟩
    have hrender : m.render type = (m.lead.text ++ (m.body type ++ m.trail.text)) ++ commentText m.comment := by
      simp [MemberLine.render]
    rw [hrender, takeWhile_comment hclean]
    exact strip_pad m.lead.space m.trail.space (m.stripped htype)
  have hne : (m.body type).isEmpty = false := by
    obtain ⟨h, t, bound, -, -, -, rfl⟩ := htype
    rfl
  rw [parseLine]
  simp only [hline, hne, matchStart_member_constant m htype, matchStart_member m htype]
  rfl

theorem MemberLine.groups_type (m : MemberLine) (type : List Char) : m.groups type 1 = some type := by
  rw [MemberLine.groups, set_of_ne (by decide), set_of_ne (by decide), set_of_ne (by decide), set_same]

theorem memberOf_groups (package name : List Char) (m : MemberLine) {type : List Char}
    (hw : type ≠ "wstring".toList) :
    memberOf package name (m.groups type) = (parseBracket m.suffix.bracket).map fun shape =>
      { rosType := rosTypeOf package type, name := m.name.text, isSeq := shape.1, fixedLen := shape.2,
        default := strip ((m.default.map fun d => d.2.text).getD []) } := by
  have h2 : m.groups type 2 = m.suffix.bracket := by
    rw [MemberLine.groups, set_of_ne (by decide), set_of_ne (by decide), set_new]
    exact set_of_ne (by decide) _
  have h3 : m.groups type 3 = some m.name.text := by
    rw [MemberLine.groups, set_of_ne (by decide), set_same]
  have h4 : m.groups type 4 = m.default.map fun d => d.2.text := by
    rw [MemberLine.groups, set_new]
    rw [set_of_ne (by decide), set_of_ne (by decide), set_of_ne (by decide)]
  simp only [memberOf, m.groups_type, h2, h3, h4, Option.getD_some, if_neg hw]
  cases parseBracket m.suffix.bracket with
  | error e => rfl
  | ok shape => rfl

theorem parseLine_wstring (package name : List Char) (m : MemberLine) :
    parseLine package name (m.render "wstring".toList) = .error (.wstring package name) := by
  have hspelled : Spelled "wstring".toList := spelled_plain (by decide) (by decide)
  rw [parseLine_member package name m hspelled, memberOf]
  simp only [m.groups_type, Option.getD_some]
  rfl

theorem Default.stripped (d : Default) : Stripped d.text := by
  constructor
  · intro c hc
    obtain ⟨e, he, hne⟩ := d.head
    obtain rfl : c = e := Option.mem_unique hc he
    exact d.not_space (List.mem_of_mem_head? hc) hne
  · intro c hc
    obtain ⟨e, he, hne⟩ := d.last
    obtain rfl : c = e := Option.mem_unique hc he
    exact d.not_space (List.mem_of_mem_getLast? hc) hne

theorem parseLine_declared (package name : List Char) (t : TypeSpec) {m : MemberLine} (h : m.suffix.Readable) :
    parseLine package name (m.render t.text) = .ok ((Line.member t m).member? package) := by
  have hdefault : strip ((m.default.map fun d => d.2.text).getD []) = (m.default.map fun d => d.2.text).getD [] := by
    cases m.default with
    | none => rfl
    | some d => exact strip_stripped d.2.stripped
  rw [parseLine_member package name m t.spelled, memberOf_groups package name m t.ne_wstring,
    parseBracket_suffix h, hdefault, t.rosTypeOf_text]
  rfl

theorem parseLine_remark (package name : List Char) (lead : Blanks) (comment : Option Remark) :
    parseLine package name (lead.text ++ commentText comment) = .ok none := by
  have hline : strip ((lead.text ++ commentText comment).takeWhile (· ≠ '#')) = [] := by
    have h := @strip_pad lead.text [] [] lead.space (by simp) ⟨by simp, by simp⟩
    rw [List.append_nil, List.append_nil] at h
    rw [takeWhile_comment lead.clean, h]
  rw [parseLine]
  simp only [hline]
  rfl

theorem parseLine_constant (package name : List Char) (lead : Blanks) (type : Ident) (gap : Gap) (n : ConstName)
    (before : Blanks) (value : Remark) :
    parseLine package name (Line.constant lead type gap n before value).render = .ok none := by
  -- the value may hold a comment sign or end in blanks; up to the equals sign the line is kept as it is
  obtain ⟨fixed, hfixed⟩ : ∃ fixed, fixed = type.text ++ (gap.text ++ (n.text ++ (before.text ++ ['=']))) := ⟨_, rfl⟩
  have hclean : ∀ c ∈ lead.text ++ fixed, Clean c := by
    simp only [hfixed, List.forall_mem_append, List.forall_mem_singleton]
    exact ⟨lead.clean, type.clean, gap.clean, n.clean, before.clean, by decide, by decide⟩
  have hsharp : ∀ c ∈ lead.text ++ fixed, decide (c ≠ '#') = true := fun c hc => decide_eq_true (hclean c hc).1
  have hstripped : Stripped fixed := by
    rw [hfixed]
    constructor
    · rintro c ⟨⟩
      exact isSpace_of_identTail (identTail_of_identHead type.head_ok)
    · intro c hc
      simp only [← List.append_assoc, List.getLast?_concat] at hc
      obtain rfl := Option.some.inj hc
      decide
  have hne : fixed ≠ [] := by
    rw [hfixed]
    exact List.cons_ne_nil _ _
  have hrender : (Line.constant lead type gap n before value).render = (lead.text ++ fixed) ++ value.text := by
    simp [Line.render, hfixed]
  obtain ⟨v, hline⟩ : ∃ v, strip ((Line.constant lead type gap n before value).render.takeWhile (· ≠ '#')) =
      fixed ++ v := by
    rw [hrender, List.takeWhile_append_of_pos hsharp, List.append_assoc]
    exact ⟨_, strip_append lead.space hne hstripped⟩
  have hmatch : (matchStart constantRe (fixed ++ v)).isSome = true := by
    have hbuild : fixed ++ v =
        type.head :: (type.tail ++ (gap.text ++ n.head :: (n.tail ++ (before.text ++ '=' :: v)))) := by
      simp [hfixed, Ident.text, ConstName.text]
    rw [hbuild]
    exact matchStart_constant type.head_ok type.tail_ok gap.nonempty gap.space n.head_ok n.tail_ok before.space
  rw [parseLine]
  simp only [hline, hmatch, if_true, ite_self]

theorem parseLine_line (package name : List Char) {l : Line} (h : l.Readable) :
    parseLine package name l.render = .ok (l.member? package) := by
  cases l with
  | remark lead comment => exact parseLine_remark package name lead comment
  | constant lead type gap n before value => exact parseLine_constant package name lead type gap n before value
  | member t m => exact parseLine_declared package name t h

end Reading

section RoundTrip

theorem Line.oneLine (l : Line) : ∀ c ∈ l.render, isLineBreak c = false := by
  have hclean {s : List Char} (h : ∀ c ∈ s, Clean c) : ∀ c ∈ s, isLineBreak c = false := fun c hc => (h c hc).2
  have hcomment (comment : Option Remark) : ∀ c ∈ commentText comment, isLineBreak c = false := by
    cases comment with
    | none => simp [commentText]
    | some r => exact List.forall_mem_cons.mpr ⟨by decide, r.oneLine⟩
  cases l with
  | remark lead comment => exact List.forall_mem_append.mpr ⟨hclean lead.clean, hcomment comment⟩
  | constant lead type gap n before value =>
    simp only [Line.render, List.forall_mem_append, List.forall_mem_cons]
    exact ⟨hclean lead.clean, hclean type.clean, hclean gap.clean, hclean n.clean, hclean before.clean, by decide,
      value.oneLine⟩
  | member t m =>
    simp only [Line.render, MemberLine.render, List.forall_mem_append]
    exact ⟨hclean m.lead.clean, hclean (m.clean t.spelled), hclean m.trail.clean, hcomment m.comment⟩

theorem parseLines_printed (package name : List Char) {lines : List Line} (h : ∀ l ∈ lines, l.Readable) :
    parseLines package name (lines.map Line.render) = .ok (lines.filterMap (Line.member? package)) := by
  induction lines with
  | nil => rfl
  | cons l lines ih =>
    rw [List.map_cons, parseLines_cons (parseLine_line package name (h l List.mem_cons_self)),
      ih fun l' hl' => h l' (List.mem_cons_of_mem _ hl')]
    cases hm : l.member? package with
    | none => rw [List.filterMap_cons_none hm]; rfl
    | some m => rw [List.filterMap_cons_some hm]; rfl

/-- Every definition printed in `.msg` syntax, with any layout, comments and constants, is read back: the
members in their order and nothing else, as long as `int` takes the array lengths and the types of the
constants are identifiers. A `wstring` member makes any text unreadable. -/
theorem printed_definition_read_back (package name : List Char) (lines : List Line) (h : ∀ l ∈ lines, l.Readable) :
    parseMsg (printed lines) package name = .ok ⟨package, name, lines.filterMap (Line.member? package)⟩ ∧
      ∀ (m : MemberLine) (before after : List (List Char)),
        (∀ l ∈ before ++ m.render "wstring".toList :: after, ∀ c ∈ l, isLineBreak c = false) →
        ∃ e, parseMsg (unlines (before ++ m.render "wstring".toList :: after)) package name = .error e := by
  constructor
  · have hone : ∀ l ∈ lines.map Line.render, ∀ c ∈ l, isLineBreak c = false := by
      intro l hl
      obtain ⟨l, -, rfl⟩ := List.mem_map.mp hl
      exact l.oneLine
    rw [printed, parseMsg_of_lines (splitlines_unlines hone), parseLines_printed package name h]
    rfl
  · intro m before after hone
    obtain ⟨e, he⟩ := parseLines_error (List.mem_append_right before List.mem_cons_self)
      (parseLine_wstring package name m)
    exact ⟨e, by rw [parseMsg_of_lines (splitlines_unlines hone), he]; rfl⟩

theorem printed_definition_read_back_matrix :
    parseMsg "# rows\nuint8 MAX=9 # m\n\tfloat64[<=9]  d  [1, 2]\t# data\nstring<=5[12] label\nPoint p\n".toList
        "geometry".toList "Matrix".toList =
      .ok ⟨"geometry".toList, "Matrix".toList,
        [{ rosType := "float64".toList, name := "d".toList, isSeq := true, default := "[1, 2]".toList },
         { rosType := "string".toList, name := "label".toList, fixedLen := some 12 },
         { rosType := "geometry/Point".toList, name := "p".toList }]⟩ := by
  have hnumber (s : List Char) (h : s ≠ [] ∧ ∀ c ∈ s, 0x30 ≤ c.toNat ∧ c.toNat ≤ 0x39) : Digits s := h
  have hread := (printed_definition_read_back "geometry".toList "Matrix".toList
    [.remark ⟨[], by decide⟩ (some ⟨" rows".toList, by decide⟩),
     .constant ⟨[], by decide⟩ ⟨'u', "int8".toList, by decide, by decide⟩ ⟨⟨[' '], by decide⟩, by decide⟩
       ⟨'M', "AX".toList, by decide, by decide⟩ ⟨[], by decide⟩ ⟨"9 # m".toList, by decide⟩,
     .member (.prim .float64)
       { lead := ⟨['\t'], by decide⟩, suffix := .bounded ⟨['9'], hnumber _ (by decide)⟩,
         gap := ⟨⟨[' ', ' '], by decide⟩, by decide⟩, name := ⟨'d', [], by decide, by decide⟩,
         default := some (⟨⟨[' ', ' '], by decide⟩, by decide⟩,
           ⟨"[1, 2]".toList, by decide, by decide, ⟨'[', by decide, by decide⟩, ⟨']', by decide, by decide⟩⟩),
         trail := ⟨['\t'], by decide⟩, comment := some ⟨" data".toList, by decide⟩ },
     .member (.boundedString ⟨['5'], hnumber _ (by decide)⟩)
       { lead := ⟨[], by decide⟩, suffix := .array ⟨['1', '2'], hnumber _ (by decide)⟩,
         gap := ⟨⟨[' '], by decide⟩, by decide⟩, name := ⟨'l', "abel".toList, by decide, by decide⟩,
         default := none, trail := ⟨[], by decide⟩, comment := none },
     .member (.nested ⟨'P', "oint".toList, by decide, by decide⟩ (by decide))
       { lead := ⟨[], by decide⟩, suffix := .none, gap := ⟨⟨[' '], by decide⟩, by decide⟩,
         name := ⟨'p', [], by decide, by decide⟩, default := none, trail := ⟨[], by decide⟩, comment := none },
     .remark ⟨[], by decide⟩ none]
    (by simp [Line.Readable, Suffix.Readable, intMaxStrDigits])).1
  exact hread

/-- A length with more digits than the interpreter takes is no length. -/
theorem parseLine_long_array (package name : List Char) (t : TypeSpec) {m : MemberLine} {n : Number}
    (hm : m.suffix = .array n) (hlong : intMaxStrDigits < n.text.length) :
    parseLine package name (m.render t.text) = .error (.int n.text) := by
  have hbracket : parseBracket m.suffix.bracket = .error (.int n.text) := by
    rw [hm]
    exact (parseBracket_array n).trans (if_neg (Nat.not_le.mpr hlong))
  rw [parseLine_member package name m t.spelled, memberOf_groups package name m t.ne_wstring, hbracket]
  rfl

/-- `int8[1...1] a` with 4301 ones. -/
theorem long_array_length_not_read_back :
    ∃ l : Line, l.render = "int8[".toList ++ (List.replicate 4301 '1' ++ "] a".toList) ∧
      parseMsg (printed [l]) "pkg".toList "Name".toList = .error (.int (List.replicate 4301 '1')) ∧
      parseMsg (printed [l]) "pkg".toList "Name".toList ≠
        .ok ⟨"pkg".toList, "Name".toList, [l].filterMap (Line.member? "pkg".toList)⟩ := by
  -- named, so that nothing unfolds the digits
  obtain ⟨ds, hds⟩ : ∃ ds, ds = List.replicate 4301 '1' := ⟨_, rfl⟩
  have hdigits : Digits ds := by
    constructor
    · rw [hds]
      exact List.cons_ne_nil _ _
    · intro c hc
      rw [hds] at hc
      rw [List.eq_of_mem_replicate hc]
      decide
  have hlong : intMaxStrDigits < ds.length := by
    rw [hds, List.length_replicate]
    decide
  obtain ⟨m, hm⟩ : ∃ m : MemberLine, m =
      { lead := ⟨[], by decide⟩, suffix := .array ⟨ds, hdigits⟩, gap := ⟨⟨[' '], by decide⟩, by decide⟩,
        name := ⟨'a', [], by decide, by decide⟩, default := none, trail := ⟨[], by decide⟩, comment := none } :=
    ⟨_, rfl⟩
  have hparse := parseLine_long_array "pkg".toList "Name".toList (.prim .int8) (m := m)
    (n := ⟨ds, hdigits⟩) (by rw [hm]) hlong
  have hone : ∀ l ∈ [(Line.member (.prim .int8) m).render], ∀ c ∈ l, isLineBreak c = false := by
    rw [List.forall_mem_singleton]
    exact (Line.member (.prim .int8) m).oneLine
  rw [← hds]
  have hmsg : parseMsg (printed [.member (.prim .int8) m]) "pkg".toList "Name".toList = .error (.int ds) := by
    rw [printed, List.map_singleton, parseMsg_of_lines (splitlines_unlines hone), parseLines, Line.render, hparse]
    rfl
  refine ⟨.member (.prim .int8) m, ?_, hmsg, ?_⟩
  · have hbody : (Line.member (.prim .int8) m).render = "int8".toList ++ (('[' :: (ds ++ [']'])) ++ " a".toList) := by
      rw [hm]
      exact List.append_nil ("int8".toList ++ (('[' :: (ds ++ [']'])) ++ " a".toList))
    rw [hbody, List.cons_append, List.append_assoc]
    rfl
  · rw [hmsg]
    exact fun h => by cases h

/-- Nor is every definition with constants: their types may be neither bounded nor qualified. -/
theorem definitions_not_read_back :
    (∃ l : Line, l.render = "int8[".toList ++ (List.replicate 4301 '1' ++ "] a".toList) ∧
      parseMsg (printed [l]) "pkg".toList "Name".toList ≠
        .ok ⟨"pkg".toList, "Name".toList, [l].filterMap (Line.member? "pkg".toList)⟩) ∧
    parseMsg "string<=8 NAME=abc\n".toList "pkg".toList "Name".toList =
      .error (.cannotParse "pkg".toList "Name".toList "string<=8 NAME=abc".toList) ∧
    parseMsg "pkg/Name X=0\n".toList "pkg".toList "Name".toList =
      .error (.cannotParse "pkg".toList "Name".toList "pkg/Name X=0".toList) := by
  obtain ⟨l, hrender, -, hlong⟩ := long_array_length_not_read_back
  exact ⟨⟨l, hrender, hlong⟩, by rfl, by rfl⟩

end RoundTrip

end Rcllite.Interface
