import Mathlib.Data.List.DropRight
import Mathlib.Data.List.Infix
import Mathlib.Data.List.TakeWhile
import Mathlib.Tactic.Common

/-! Python's `str` as a list of code points: white space and lines (`strip`, `splitlines`), `partition`,
and `int` of a text, with the tables of the interpreter 3.12 (Unicode 15.0). -/
namespace PyText

/-- Decided by going through the text, not through all characters. -/
instance decidableForallMem (p : Char → Prop) [DecidablePred p] (s : List Char) : Decidable (∀ c ∈ s, p c) :=
  List.decidableBAll p s

/-- `str.isspace`, and the class `\s` of `re`. -/
def isSpace (c : Char) : Bool :=
  let n := c.toNat
  (9 ≤ n && n ≤ 0xd) || (0x1c ≤ n && n ≤ 0x20) || n == 0x85 || n == 0xa0 || n == 0x1680 ||
    (0x2000 ≤ n && n ≤ 0x200a) || n == 0x2028 || n == 0x2029 || n == 0x202f || n == 0x205f || n == 0x3000

/-- The characters that end a line in `splitlines`. -/
def isLineBreak (c : Char) : Bool :=
  let n := c.toNat
  (0xa ≤ n && n ≤ 0xd) || (0x1c ≤ n && n ≤ 0x1e) || n == 0x85 || n == 0x2028 || n == 0x2029

/-- The zero of each block of ten decimal digits (category Nd). -/
def zeros : List ℕ :=
  [0x30, 0x660, 0x6f0, 0x7c0, 0x966, 0x9e6, 0xa66, 0xae6, 0xb66, 0xbe6, 0xc66, 0xce6, 0xd66, 0xde6, 0xe50,
   0xed0, 0xf20, 0x1040, 0x1090, 0x17e0, 0x1810, 0x1946, 0x19d0, 0x1a80, 0x1a90, 0x1b50, 0x1bb0, 0x1c40,
   0x1c50, 0xa620, 0xa8d0, 0xa900, 0xa9d0, 0xa9f0, 0xaa50, 0xabf0, 0xff10, 0x104a0, 0x10d30, 0x11066,
   0x110f0, 0x11136, 0x111d0, 0x112f0, 0x11450, 0x114d0, 0x11650, 0x116c0, 0x11730, 0x118e0, 0x11950,
   0x11c50, 0x11d50, 0x11da0, 0x11f50, 0x16a60, 0x16ac0, 0x16b50, 0x1d7ce, 0x1d7d8, 0x1d7e2, 0x1d7ec,
   0x1d7f6, 0x1e140, 0x1e2f0, 0x1e4f0, 0x1e950, 0x1fbf0]

def decimal? (c : Char) : Option ℕ :=
  zeros.findSome? fun z => if z ≤ c.toNat ∧ c.toNat < z + 10 then some (c.toNat - z) else none

/-- The class `\d` of `re`. -/
def isDecimal (c : Char) : Bool := (decimal? c).isSome

def strip (s : List Char) : List Char := (s.dropWhile isSpace).rdropWhile isSpace

def consLine (c : Char) : List (List Char) → List (List Char)
  | [] => [[c]]
  | l :: ls => (c :: l) :: ls

/-- A carriage return right before a newline belongs to it, and the end of the text ends no empty line. -/
def splitlines : List Char → List (List Char)
  | [] => []
  | c :: cs =>
    if c = '\r' ∧ cs.head? = some '\n' then splitlines cs
    else if isLineBreak c then [] :: splitlines cs
    else consLine c (splitlines cs)

/-- What stands before and after the first `sep`, if there is one. -/
def partition (sep : List Char) : List Char → Option (List Char × List Char)
  | [] => none
  | c :: cs =>
    if sep.isPrefixOf (c :: cs) then some ([], (c :: cs).drop sep.length)
    else (partition sep cs).map fun r => (c :: r.1, r.2)

section Int

def isAsciiSpace (c : Char) : Bool := c = ' ' || (9 ≤ c.toNat && c.toNat ≤ 0xd)

/-- What `int` makes of a character before it reads it: digits and spaces beyond ASCII become their ASCII
counterparts, and nothing else there is ever part of a number. -/
def toAsciiDecimal (c : Char) : Char :=
  if c.toNat < 127 then c
  else if isSpace c then ' '
  else match decimal? c with
    | some d => Char.ofNat (0x30 + d)
    | none => '?'

def digit? (c : Char) : Option ℕ := if 0x30 ≤ c.toNat ∧ c.toNat ≤ 0x39 then some (c.toNat - 0x30) else none

/-- Digits with single underscores between them. -/
def intDigits : List Char → Option (List ℕ)
  | [] => none
  | [c] => (digit? c).map fun d => [d]
  | c :: '_' :: rest => (digit? c).bind fun d => (intDigits rest).map (d :: ·)
  | c :: rest => (digit? c).bind fun d => (intDigits rest).map (d :: ·)

/-- `sys.get_int_max_str_digits()`, as the interpreter starts with it. -/
def intMaxStrDigits : ℕ := 4300

def natOfDigits (ds : List ℕ) : ℕ := ds.foldl (fun n d => 10 * n + d) 0

def natOfText? (s : List Char) : Option ℕ :=
  (intDigits s).bind fun ds => if ds.length ≤ intMaxStrDigits then some (natOfDigits ds) else none

/-- `int(s)`; no value where it raises `ValueError`. -/
def int? (s : List Char) : Option ℤ :=
  match ((s.map toAsciiDecimal).dropWhile isAsciiSpace).rdropWhile isAsciiSpace with
  | '-' :: t => (natOfText? t).map fun n => -(n : ℤ)
  | '+' :: t => (natOfText? t).map fun n => (n : ℤ)
  | t => (natOfText? t).map fun n => (n : ℤ)

end Int

section Strip

/-- No white space at either end. -/
def Stripped (s : List Char) : Prop :=
  (∀ c ∈ s.head?, isSpace c = false) ∧ (∀ c ∈ s.getLast?, isSpace c = false)

theorem strip_pad {a s b : List Char} (ha : ∀ c ∈ a, isSpace c = true) (hb : ∀ c ∈ b, isSpace c = true)
    (hs : Stripped s) : strip (a ++ (s ++ b)) = s := by
  have hleft : (a ++ (s ++ b)).dropWhile isSpace = (s ++ b).dropWhile isSpace :=
    List.dropWhile_append_of_pos ha
  rw [strip, hleft]
  cases s with
  | nil =>
    rw [List.nil_append, List.dropWhile_eq_nil_iff.mpr hb, List.rdropWhile_nil]
  | cons c s =>
    have hc : isSpace c = false := hs.1 c rfl
    have hright : (b.reverse ++ (c :: s).reverse).dropWhile isSpace = (c :: s).reverse.dropWhile isSpace :=
      List.dropWhile_append_of_pos (by simpa using hb)
    rw [List.cons_append, List.dropWhile_cons_of_neg (by simp [hc]), List.rdropWhile, ← List.cons_append,
      List.reverse_append, hright]
    obtain ⟨d, t, hd⟩ := List.exists_cons_of_ne_nil (List.reverse_ne_nil_iff.mpr (List.cons_ne_nil c s))
    have hlast : isSpace d = false := by
      apply hs.2
      rw [← List.head?_reverse, hd]
      rfl
    rw [hd, List.dropWhile_cons_of_neg (by simp [hlast]), ← hd, List.reverse_reverse]

theorem strip_stripped {s : List Char} (hs : Stripped s) : strip s = s := by
  have h := @strip_pad [] s [] (by simp) (by simp) hs
  rwa [List.nil_append, List.append_nil] at h

/-- Text that starts and ends in no white space is left alone, whatever is stripped after it. -/
theorem strip_append {a s v : List Char} (ha : ∀ c ∈ a, isSpace c = true) (hne : s ≠ []) (hs : Stripped s) :
    strip (a ++ (s ++ v)) = s ++ v.rdropWhile isSpace := by
  have hsplit : s ++ v = (s ++ v.rdropWhile isSpace) ++ v.rtakeWhile isSpace := by
    rw [List.append_assoc, List.rdropWhile_append_rtakeWhile]
  have hspaces : ∀ c ∈ v.rtakeWhile isSpace, isSpace c = true := fun c hc => List.mem_rtakeWhile_imp hc
  rw [hsplit]
  refine strip_pad ha hspaces ⟨?_, ?_⟩
  · intro c hc
    rw [List.head?_append_of_ne_nil _ hne] at hc
    exact hs.1 c hc
  · intro c hc
    by_cases hv : v.rdropWhile isSpace = []
    · rw [hv, List.append_nil] at hc
      exact hs.2 c hc
    · rw [List.getLast?_append_of_ne_nil _ hv, List.getLast?_eq_some_getLast hv] at hc
      obtain rfl := Option.some.inj hc
      simpa using List.rdropWhile_last_not isSpace v hv

end Strip

section Lines

/-- `"\n".join` -/
def unlines : List (List Char) → List Char
  | [] => []
  | [l] => l
  | l :: ls => l ++ '\n' :: unlines ls

theorem splitlines_break {c : Char} (hcr : c ≠ '\r') (hb : isLineBreak c = true) (rest : List Char) :
    splitlines (c :: rest) = [] :: splitlines rest := by
  rw [splitlines, if_neg (fun h => hcr h.1), if_pos hb]

theorem splitlines_newline_cons (rest : List Char) : splitlines ('\n' :: rest) = [] :: splitlines rest :=
  splitlines_break (by decide) (by decide) rest

theorem splitlines_cons_of_not {c : Char} (h : isLineBreak c = false) (rest : List Char) :
    splitlines (c :: rest) = consLine c (splitlines rest) := by
  have hr : c ≠ '\r' := by
    rintro rfl
    exact absurd h (by decide)
  rw [splitlines, if_neg (fun hc => hr hc.1), if_neg (by simp [h])]

theorem splitlines_line {l : List Char} (h : ∀ c ∈ l, isLineBreak c = false) (rest : List Char) :
    splitlines (l ++ '\n' :: rest) = l :: splitlines rest := by
  induction l with
  | nil => exact splitlines_newline_cons rest
  | cons c l ih =>
    rw [List.cons_append, splitlines_cons_of_not (h c List.mem_cons_self),
      ih fun d hd => h d (List.mem_cons_of_mem _ hd), consLine]

theorem splitlines_last {l : List Char} (h : ∀ c ∈ l, isLineBreak c = false) (hne : l ≠ []) :
    splitlines l = [l] := by
  induction l with
  | nil => exact absurd rfl hne
  | cons c l ih =>
    rw [splitlines_cons_of_not (h c List.mem_cons_self)]
    cases l with
    | nil => rfl
    | cons d l => rw [ih (fun e he => h e (List.mem_cons_of_mem _ he)) (List.cons_ne_nil d l), consLine]

theorem splitlines_ne_nil {s : List Char} (h : s ≠ []) : splitlines s ≠ [] := by
  induction s with
  | nil => exact absurd rfl h
  | cons c cs ih =>
    rw [splitlines]
    split_ifs with hcr hbreak
    · refine ih ?_
      rintro rfl
      exact absurd hcr.2 (by simp)
    · exact List.cons_ne_nil _ _
    · cases splitlines cs with
      | nil => exact List.cons_ne_nil _ _
      | cons l ls => exact List.cons_ne_nil _ _

/-- Lines joined and split again are the same lines, but for an empty one at the end. -/
theorem splitlines_unlines {ls : List (List Char)} (h : ∀ l ∈ ls, ∀ c ∈ l, isLineBreak c = false) :
    ls = splitlines (unlines ls) ∨ ls = splitlines (unlines ls) ++ [[]] := by
  induction ls with
  | nil => exact .inl rfl
  | cons l ls ih =>
    have hl := h l List.mem_cons_self
    cases ls with
    | nil =>
      cases l with
      | nil => exact .inr rfl
      | cons c l => exact .inl (splitlines_last hl (List.cons_ne_nil c l)).symm
    | cons l' ls =>
      have hrest := ih fun d hd => h d (List.mem_cons_of_mem _ hd)
      rw [unlines, splitlines_line hl]
      · rcases hrest with hrest | hrest
        · exact .inl (congrArg (List.cons l) hrest)
        · exact .inr (congrArg (List.cons l) hrest)
      · exact List.cons_ne_nil _ _

theorem consLine_append {c : Char} {x y : List (List Char)} (hx : x ≠ []) :
    consLine c (x ++ y) = consLine c x ++ y := by
  obtain ⟨l, ls, rfl⟩ := List.exists_cons_of_ne_nil hx
  rfl

/-- A newline at the end of the text ends its last line or is an empty line. -/
theorem splitlines_newline (s : List Char) :
    splitlines (s ++ ['\n']) = splitlines s ∨ splitlines (s ++ ['\n']) = splitlines s ++ [[]] := by
  induction s with
  | nil => exact .inr rfl
  | cons c cs ih =>
    cases cs with
    | nil =>
      by_cases hcr : c = '\r'
      · subst hcr
        exact .inl rfl
      · by_cases hb : isLineBreak c = true
        · right
          rw [List.singleton_append, splitlines_break hcr hb, splitlines_break hcr hb]
          rfl
        · left
          rw [Bool.not_eq_true] at hb
          rw [List.singleton_append, splitlines_cons_of_not hb, splitlines_cons_of_not hb]
          rfl
    | cons d ds =>
      rw [List.cons_append, splitlines, splitlines]
      have hhead : ((d :: ds) ++ ['\n']).head? = (d :: ds).head? := rfl
      rw [hhead]
      have hne : splitlines (d :: ds) ≠ [] := splitlines_ne_nil (List.cons_ne_nil d ds)
      split_ifs with hcr hb
      · exact ih
      · rcases ih with ih | ih
        · exact .inl (congrArg (List.cons []) ih)
        · exact .inr (congrArg (List.cons []) ih)
      · rcases ih with ih | ih
        · exact .inl (congrArg (consLine c) ih)
        · exact .inr ((congrArg (consLine c) ih).trans (consLine_append hne))

/-- A text that ends its last line is split apart from what follows. -/
theorem splitlines_append {s rest : List Char} (hs : ∃ c ∈ s.getLast?, isLineBreak c = true)
    (hrest : rest.head? ≠ some '\n') : splitlines (s ++ rest) = splitlines s ++ splitlines rest := by
  induction s with
  | nil =>
    obtain ⟨c, hc, -⟩ := hs
    exact absurd hc (by simp)
  | cons c cs ih =>
    cases cs with
    | nil =>
      obtain ⟨d, hd, hb⟩ := hs
      obtain rfl : c = d := by simpa using hd
      rw [List.singleton_append, splitlines, splitlines, if_neg (fun h => hrest h.2), if_pos hb,
        if_neg (fun h => by simp at h), if_pos hb]
      rfl
    | cons d ds =>
      have hrec := ih (by rwa [List.getLast?_cons_cons] at hs)
      have hhead : ((d :: ds) ++ rest).head? = (d :: ds).head? := rfl
      have hne : splitlines (d :: ds) ≠ [] := splitlines_ne_nil (List.cons_ne_nil d ds)
      rw [List.cons_append, splitlines, splitlines, hhead, hrec]
      split_ifs with hcr hb
      · rfl
      · rfl
      · exact consLine_append hne

end Lines

section Partition
variable {sep : List Char}

/-- The first separator is the one written, if none starts before it. -/
theorem partition_append {s rest : List Char} (hne : sep ≠ [])
    (h : ∀ t, t <:+ s → t ≠ [] → ¬ sep <+: t ++ (sep ++ rest)) :
    partition sep (s ++ (sep ++ rest)) = some (s, rest) := by
  induction s with
  | nil =>
    obtain ⟨c, cs, rfl⟩ := List.exists_cons_of_ne_nil hne
    have hpre : (c :: cs).isPrefixOf (c :: cs ++ rest) = true :=
      List.isPrefixOf_iff_prefix.mpr (List.prefix_append _ _)
    rw [List.nil_append, List.cons_append, partition, ← List.cons_append, if_pos hpre, List.drop_left]
  | cons c cs ih =>
    have hc : ¬ sep.isPrefixOf (c :: (cs ++ (sep ++ rest))) = true := by
      rw [List.isPrefixOf_iff_prefix]
      exact h (c :: cs) List.suffix_rfl (List.cons_ne_nil c cs)
    rw [List.cons_append, partition, if_neg hc,
      ih fun t ht => h t (ht.trans (List.suffix_cons c cs))]
    rfl

/-- A text that holds the separator is cut inside it, whatever follows. -/
theorem partition_of_infix {s : List Char} (hne : sep ≠ []) (h : sep <:+: s) :
    ∃ p q, s = p ++ (sep ++ q) ∧ ∀ rest, partition sep (s ++ rest) = some (p, q ++ rest) := by
  induction s with
  | nil => exact absurd (List.infix_nil.mp h) hne
  | cons c cs ih =>
    by_cases hpre : sep <+: c :: cs
    · obtain ⟨q, hq⟩ := hpre
      refine ⟨[], q, by rw [List.nil_append, hq], fun rest => ?_⟩
      have hlong : sep.isPrefixOf (c :: (cs ++ rest)) = true := by
        rw [List.isPrefixOf_iff_prefix, ← List.cons_append, ← hq, List.append_assoc]
        exact List.prefix_append _ _
      rw [List.cons_append, partition, if_pos hlong, ← List.cons_append, ← hq, List.append_assoc, List.drop_left]
    · have hcs : sep <:+: cs := (List.infix_cons_iff.mp h).resolve_left hpre
      obtain ⟨p, q, hpq, hcut⟩ := ih hcs
      refine ⟨c :: p, q, by rw [hpq, List.cons_append], fun rest => ?_⟩
      have hlong : ¬ sep.isPrefixOf (c :: (cs ++ rest)) = true := by
        rw [List.isPrefixOf_iff_prefix]
        intro hlong
        refine hpre (List.prefix_of_prefix_length_le hlong (List.prefix_append (c :: cs) rest) ?_)
        exact hcs.length_le.trans (Nat.le_succ _)
      rw [List.cons_append, partition, if_neg hlong, hcut]
      rfl

end Partition

section Decimal

/-- Decimal ASCII digits. -/
def Digits (s : List Char) : Prop := s ≠ [] ∧ ∀ c ∈ s, 0x30 ≤ c.toNat ∧ c.toNat ≤ 0x39

def natOfText (s : List Char) : ℕ := natOfDigits (s.map fun c => c.toNat - 0x30)

theorem isDecimal_of_digit {c : Char} (h : 0x30 ≤ c.toNat ∧ c.toNat ≤ 0x39) : isDecimal c = true := by
  have hc : 0x30 ≤ c.toNat ∧ c.toNat < 0x30 + 10 := by omega
  simp [isDecimal, decimal?, zeros, hc]

theorem intDigits_digits {s : List Char} (h : Digits s) : intDigits s = some (s.map fun c => c.toNat - 0x30) := by
  obtain ⟨hne, hd⟩ := h
  induction s with
  | nil => exact absurd rfl hne
  | cons c cs ih =>
    have hc : digit? c = some (c.toNat - 0x30) := if_pos (hd c List.mem_cons_self)
    cases cs with
    | nil => rw [intDigits, hc]; rfl
    | cons d ds =>
      have hunder : d ≠ '_' := by
        rintro rfl
        exact absurd (hd '_' (by simp)) (by decide)
      have hrest := ih (List.cons_ne_nil d ds) fun e he => hd e (List.mem_cons_of_mem _ he)
      rw [intDigits, hc, hrest]
      · rfl
      · simp
      · rintro t ⟨⟩
        exact hunder rfl

/-- A number written in decimal digits is read as it stands, up to the interpreter's limit. -/
theorem int?_digits {s : List Char} (h : Digits s) :
    int? s = if s.length ≤ intMaxStrDigits then some (natOfText s : ℤ) else none := by
  have hascii : s.map toAsciiDecimal = s := by
    refine (List.map_congr_left fun c hc => ?_).trans (List.map_id s)
    have hdigit := h.2 c hc
    rw [toAsciiDecimal, if_pos (by omega), id]
  have hspace : ∀ c ∈ s, isAsciiSpace c = false := by
    intro c hc
    have hdigit := h.2 c hc
    have hblank : c ≠ ' ' := by
      rintro rfl
      exact absurd hdigit (by decide)
    simp only [isAsciiSpace, hblank, decide_false, Bool.false_or, Bool.and_eq_false_iff, decide_eq_false_iff_not]
    omega
  have htrim : (s.dropWhile isAsciiSpace).rdropWhile isAsciiSpace = s := by
    rw [List.dropWhile_eq_self_iff.mpr, List.rdropWhile_eq_self_iff.mpr]
    · intro hne
      simpa using hspace _ (List.getLast_mem hne)
    · intro hpos
      simpa using hspace _ (List.getElem_mem hpos)
  have hnat : natOfText? s = if s.length ≤ intMaxStrDigits then some (natOfText s) else none := by
    rw [natOfText?, intDigits_digits h, Option.bind_some, List.length_map, natOfText]
  have hsigned (c : Char) (t : List Char) (hs : s = c :: t) : c ≠ '-' ∧ c ≠ '+' := by
    have hdigit := h.2 c (by rw [hs]; exact List.mem_cons_self)
    constructor
    · rintro rfl
      exact absurd hdigit (by decide)
    · rintro rfl
      exact absurd hdigit (by decide)
  rw [int?, hascii, htrim]
  split
  · exact absurd rfl (hsigned _ _ rfl).1
  · exact absurd rfl (hsigned _ _ rfl).2
  · rw [hnat]
    split_ifs
    · rfl
    · rfl

end Decimal

end PyText
