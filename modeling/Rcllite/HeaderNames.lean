import Rcllite.InterfaceRoundTrip
import Rcllite.Lib.Checks
import Rcllite.Lib.SortBy
import Rcllite.Lib.Tokens
import Mathlib.Data.Char
import Mathlib.Data.List.Lex
import Mathlib.Tactic.IntervalCases

/-! The file names of generated headers: what the build rule declares (`bazel/rules/msg.bzl`), what
`tools/msg_codegen.py` writes, and what the headers of other types include. -/
namespace Rcllite.Interface
open PyText

section Model

/-- `upper` of an ASCII character. -/
def upper (c : Char) : Char := if isLower c then Char.ofNat (c.toNat - 0x20) else c

/-- `lower` of an ASCII character. -/
def lower (c : Char) : Char := if isUpper c then Char.ofNat (c.toNat + 0x20) else c

/-- A small letter or a digit stands before. -/
def afterSmall (prev : Option Char) : Bool := prev.any fun p => isLower p || isDigit p

/-- The loop of `_camel_to_snake` in `msg.bzl`, with the character before the one it looks at. -/
def bzlLoop (prev : Option Char) : List Char → List Char
  | [] => []
  | ch :: s => (if isUpper ch && afterSmall prev then ['_'] else []) ++ lower ch :: bzlLoop (some ch) s

def bzlCamelToSnake (s : List Char) : List Char := bzlLoop none s

def capitalize (p : List Char) : List Char := (p.take 1).map upper ++ p.drop 1

def snakeToCamel (s : List Char) : List Char := ((s.splitOn '_').map capitalize).flatten

/-- `re.sub(r"(?<=[a-z0-9])(?=[A-Z])", "_", s)` -/
def insertUnderscores (prev : Option Char) : List Char → List Char
  | [] => []
  | c :: s => if afterSmall prev && isUpper c then '_' :: c :: insertUnderscores (some c) s
    else c :: insertUnderscores (some c) s

def camelToSnake (s : List Char) : List Char := (insertUnderscores none s).map lower

/-- `f[f.rfind("/") + 1:]` and `os.path.basename` -/
def basename (f : List Char) : List Char :=
  match Tokens.rfind '/' f with
  | some i => f.drop (i + 1)
  | none => f

/-- `rsplit(".", 1)[0]` -/
def stem (s : List Char) : List Char :=
  match Tokens.rfind '.' s with
  | some i => s.take i
  | none => s

/-- The path of a header below the output root. -/
def headerPath (package file : List Char) : List Char :=
  "rcllite_types/".toList ++ (package ++ '/' :: (file ++ ".hpp".toList))

/-- The output `rcllite_msg_library` declares for a source label. -/
def declaredHeader (package label : List Char) : List Char :=
  headerPath package (bzlCamelToSnake (stem (basename label)))

/-- The name `main` gives the type of a source file; other files are ignored. -/
def typeName? (path : List Char) : Option (List Char) :=
  let base := basename path
  if ".msg".toList.isSuffixOf base || ".srv".toList.isSuffixOf base then
    some (snakeToCamel (base.take (base.length - 4)))
  else none

/-- The header `main` writes for a source file. -/
def writtenHeader? (package path : List Char) : Option (List Char) :=
  (typeName? path).map fun name => headerPath package (camelToSnake name)

def includeLine (package name : List Char) : List Char :=
  "#include \"".toList ++ (headerPath package (camelToSnake name) ++ ['"'])

/-- The loop of `includes_for` over the members. -/
def includeDeps (ownPackage : List Char) (ownName : Option (List Char)) :
    List Member → Except ValueError (List (List Char))
  | [] => .ok []
  | m :: ms =>
    if primKeys.contains m.rosType || m.rosType == "string".toList then includeDeps ownPackage ownName ms
    else do
      let (pkg, nm) ← splitPkgType m.rosType
      let rest ← includeDeps ownPackage ownName ms
      .ok (if pkg = ownPackage ∧ some nm = ownName then rest else includeLine pkg nm :: rest)

/-- The lines of `includes_for`: a set, sorted. -/
def includesFor (msgs : List MsgDef) (ownPackage : List Char) (ownName : Option (List Char)) :
    Except ValueError (List (List Char)) :=
  (includeDeps ownPackage ownName (msgs.flatMap MsgDef.members)).map (SortBy.toSet id)

end Model

section Letters

def isLetter (c : Char) : Bool := isUpper c || isLower c

def isAlnum (c : Char) : Bool := isLetter c || isDigit c

theorem isUpper_upper {c : Char} (h : isLower c = true) : isUpper (upper c) = true ∧ lower (upper c) = c := by
  have hn := isLower_iff.mp h
  rw [upper, if_pos h]
  obtain ⟨n, hc⟩ : ∃ n, n = c.toNat := ⟨_, rfl⟩
  rw [← Char.ofNat_toNat c, ← hc]
  rw [← hc] at hn
  obtain ⟨hlow, hhigh⟩ := hn
  interval_cases n <;> decide

theorem lower_of_isUpper {c : Char} (h : isUpper c = true) : isLower (lower c) = true := by
  have hn := isUpper_iff.mp h
  rw [lower, if_pos h]
  obtain ⟨n, hc⟩ : ∃ n, n = c.toNat := ⟨_, rfl⟩
  rw [← hc] at hn ⊢
  obtain ⟨hlow, hhigh⟩ := hn
  interval_cases n <;> decide

theorem not_upper_of_lower {c : Char} (h : isLower c = true) : isUpper c = false := by
  rw [isLower_iff] at h
  rw [← Bool.not_eq_true, isUpper_iff]
  omega

theorem not_digit_of_upper {c : Char} (h : isUpper c = true) : isDigit c = false := by
  rw [isUpper_iff] at h
  rw [← Bool.not_eq_true, isDigit_iff]
  omega

theorem lower_of_not_upper {c : Char} (h : isUpper c = false) : lower c = c := by
  rw [lower, h]
  rfl

theorem upper_of_not_lower {c : Char} (h : isLower c = false) : upper c = c := by
  rw [upper, h]
  rfl

theorem lower_upper (c : Char) : lower (upper c) = lower c := by
  cases h : isLower c with
  | true => rw [(isUpper_upper h).2, lower_of_not_upper (not_upper_of_lower h)]
  | false => rw [upper_of_not_lower h]

theorem isUpper_upper_iff (c : Char) : isUpper (upper c) = isLetter c := by
  rw [isLetter]
  cases h : isLower c with
  | true => rw [(isUpper_upper h).1, Bool.or_true]
  | false => rw [upper_of_not_lower h, Bool.or_false]

theorem isLower_upper (c : Char) : isLower (upper c) = false := by
  cases h : isLower c with
  | true => exact excludes_symm not_upper_of_lower (isUpper_upper h).1
  | false => rw [upper_of_not_lower h, h]

theorem isDigit_upper (c : Char) : isDigit (upper c) = isDigit c := by
  cases h : isLower c with
  | true =>
    rw [not_digit_of_upper (isUpper_upper h).1, eq_comm, ← Bool.not_eq_true, isDigit_iff]
    rw [isLower_iff] at h
    omega
  | false => rw [upper_of_not_lower h]

theorem lower_ne_underscore {c : Char} (h : isAlnum c = true) : lower c ≠ '_' := by
  intro hc
  cases hu : isUpper c with
  | true =>
    have hl := lower_of_isUpper hu
    rw [hc] at hl
    exact absurd hl (by decide)
  | false =>
    rw [lower_of_not_upper hu] at hc
    rw [hc] at h
    exact absurd h (by decide)

end Letters

section Snake

/-- The regular expression and the loop of the build rule write the same name. -/
theorem camelToSnake_eq (s : List Char) : camelToSnake s = bzlCamelToSnake s := by
  have hloop : ∀ prev, (insertUnderscores prev s).map lower = bzlLoop prev s := by
    induction s with
    | nil => exact fun prev => rfl
    | cons c s ih =>
      intro prev
      rw [insertUnderscores, bzlLoop, Bool.and_comm]
      split_ifs
      · rw [List.map_cons, List.map_cons, ih]
        rfl
      · rw [List.map_cons, ih]
        rfl
  exact hloop none

theorem bzlLoop_append {s : List Char} (hs : s ≠ []) (prev : Option Char) (t : List Char) :
    bzlLoop prev (s ++ t) = bzlLoop prev s ++ bzlLoop s.getLast? t := by
  induction s generalizing prev with
  | nil => exact absurd rfl hs
  | cons c s ih =>
    rw [List.cons_append, bzlLoop, bzlLoop, List.append_assoc, List.cons_append]
    cases s with
    | nil => rfl
    | cons d s => rw [ih (List.cons_ne_nil d s), List.getLast?_cons_cons]

theorem bzlLoop_of_not {prev : Option Char} (h : afterSmall prev = false) (s : List Char) :
    bzlLoop prev s = bzlLoop none s := by
  cases s with
  | nil => rfl
  | cons c s =>
    rw [bzlLoop, bzlLoop, h]
    rfl

theorem bzlLoop_underscore (p rest : List Char) :
    bzlLoop none (p ++ '_' :: rest) = bzlLoop none p ++ '_' :: bzlLoop none rest := by
  have hsep (prev : Option Char) : bzlLoop prev ('_' :: rest) = '_' :: bzlLoop none rest := by
    rw [bzlLoop, bzlLoop_of_not (by decide)]
    rfl
  cases p with
  | nil => exact hsep none
  | cons c p => rw [bzlLoop_append (List.cons_ne_nil c p), hsep]

theorem bzlLoop_none_cons (c : Char) (s : List Char) : bzlLoop none (c :: s) = lower c :: bzlLoop (some c) s := by
  rw [bzlLoop, afterSmall, Option.any_none, Bool.and_false]
  rfl

/-- A part that starts with a letter, and not with a small one right before a capital. -/
def startsWell : List Char → Bool
  | [] => false
  | [c] => isLetter c
  | c :: d :: _ => isLetter c && !(isLower c && isUpper d)

/-- A part that ends in a digit or in a small letter, not the one it starts with. -/
def endsWell (p : List Char) : Bool := decide (2 ≤ p.length) && afterSmall p.getLast?

/-- Capitalising a part changes its name only when its small first letter stands before a capital. -/
theorem bzlLoop_capitalize_iff {c : Char} {p x y : List Char} (halnum : ∀ d ∈ c :: p, isAlnum d = true)
    (hc : isLetter c = true) :
    bzlLoop none (c :: p) ++ x = bzlLoop none (capitalize (c :: p)) ++ y ↔ startsWell (c :: p) = true ∧ x = y := by
  have hcap : capitalize (c :: p) = upper c :: p := rfl
  rw [hcap, bzlLoop_none_cons, bzlLoop_none_cons, lower_upper, List.cons_append, List.cons_append,
    List.cons_inj_right]
  cases p with
  | nil =>
    rw [startsWell, hc]
    simp [bzlLoop]
  | cons d p =>
    have hd := lower_ne_underscore (halnum d (by simp))
    rw [startsWell, hc, bzlLoop, bzlLoop]
    simp only [afterSmall, Option.any_some, isLower_upper, isDigit_upper, Bool.false_or, Bool.true_and]
    by_cases hbad : isLower c = true ∧ isUpper d = true
    -- `xRay`: the underscore before the second character goes when the first becomes a capital
    · have hdigit : isDigit c = false := by
        rw [← isDigit_upper]
        exact not_digit_of_upper (isUpper_upper hbad.1).1
      simp [hbad.1, hbad.2, hdigit, hd.symm]
    · have hsame : (isUpper d && (isLower c || isDigit c)) = (isUpper d && isDigit c) := by
        cases hl : isLower c with
        | false => rfl
        | true =>
          cases hu : isUpper d with
          | false => rfl
          | true => exact absurd ⟨hl, hu⟩ hbad
      have hgood : (!(isLower c && isUpper d)) = true := by
        rw [Bool.not_eq_true', Bool.and_eq_false_iff, ← Bool.not_eq_true, ← Bool.not_eq_true]
        tauto
      simp only [hsame, hgood]
      simp

/-- Only the first character asks what stands before it. -/
theorem bzlLoop_cons (prev : Option Char) (c : Char) (s : List Char) :
    bzlLoop prev (c :: s) = (if isUpper c && afterSmall prev then ['_'] else []) ++ bzlLoop none (c :: s) := by
  rw [bzlLoop_none_cons, bzlLoop]

/-- No two underscores stand together in the name of a type without any. -/
theorem bzlLoop_ne_double {s : List Char} (h : ∀ c ∈ s, isAlnum c = true) (prev : Option Char) (t : List Char) :
    bzlLoop prev s ≠ '_' :: '_' :: t := by
  cases s with
  | nil => exact List.cons_ne_nil _ _ ∘ Eq.symm
  | cons c s =>
    have hc := lower_ne_underscore (h c List.mem_cons_self)
    rw [bzlLoop]
    split_ifs
    · intro heq
      exact hc (List.cons.inj (List.cons.inj heq).2).1
    · intro heq
      exact hc (List.cons.inj heq).1

end Snake

section Parts

/-- The parts between the underscores of a base name that the build rule and the generator name alike. -/
def RegularParts (parts : List (List Char)) : Prop :=
  (∀ p ∈ parts, startsWell p = true) ∧ ∀ p ∈ parts.dropLast, endsWell p = true

theorem regularParts_cons {p q : List Char} {rest : List (List Char)} :
    RegularParts (p :: q :: rest) ↔ startsWell p = true ∧ endsWell p = true ∧ RegularParts (q :: rest) := by
  rw [RegularParts, RegularParts, List.dropLast_cons_cons, List.forall_mem_cons,
    List.forall_mem_cons (l := (q :: rest).dropLast)]
  tauto

theorem regularParts_singleton {p : List Char} : RegularParts [p] ↔ startsWell p = true := by
  simp [RegularParts]

theorem afterSmall_capitalize {c : Char} (hc : isLetter c = true) (p : List Char) :
    afterSmall (capitalize (c :: p)).getLast? = endsWell (c :: p) := by
  cases p with
  | nil =>
    have hdigit : isDigit c = false := by
      rw [← isDigit_upper]
      exact not_digit_of_upper ((isUpper_upper_iff c).trans hc)
    simp [capitalize, endsWell, afterSmall, isLower_upper, isDigit_upper, hdigit]
  | cons d p => simp [capitalize, endsWell, List.getLast?_cons_cons]

variable {rest : List (List Char)}

/-- A list of parts is named alike when its first part is and the rest goes on with an underscore. -/
theorem named_alike_of_rest {c : Char} {p : List Char} (halnum : ∀ d ∈ c :: p, isAlnum d = true)
    (hc : isLetter c = true)
    (hrest : rest ≠ [] → ∀ prev, '_' :: bzlLoop none (['_'].intercalate rest) =
      bzlLoop prev (rest.map capitalize).flatten ↔ afterSmall prev = true ∧ RegularParts rest) :
    bzlLoop none (['_'].intercalate ((c :: p) :: rest)) =
      bzlLoop none (((c :: p) :: rest).map capitalize).flatten ↔ RegularParts ((c :: p) :: rest) := by
  have hsplit : bzlLoop none (((c :: p) :: rest).map capitalize).flatten =
      bzlLoop none (capitalize (c :: p)) ++
        bzlLoop (capitalize (c :: p)).getLast? (rest.map capitalize).flatten :=
    bzlLoop_append (List.cons_ne_nil (upper c) p) none _
  rw [hsplit]
  cases rest with
  | nil =>
    rw [List.intercalate_singleton, ← List.append_nil (bzlLoop none (c :: p)), bzlLoop_capitalize_iff halnum hc,
      regularParts_singleton, List.map_nil, List.flatten_nil, bzlLoop]
    exact and_iff_left rfl
  | cons q rest =>
    rw [List.intercalate_cons_cons, List.append_assoc, List.singleton_append, bzlLoop_underscore,
      bzlLoop_capitalize_iff halnum hc, hrest (List.cons_ne_nil q rest), afterSmall_capitalize hc, regularParts_cons]

theorem flatten_alnum (h : ∀ p ∈ rest, ∀ c ∈ p, isAlnum c = true) :
    ∀ c ∈ (rest.map capitalize).flatten, isAlnum c = true := by
  intro c hc
  obtain ⟨q, hq, hcq⟩ := List.mem_flatten.mp hc
  obtain ⟨p, hp, rfl⟩ := List.mem_map.mp hq
  cases p with
  | nil => cases hcq
  | cons d p =>
    rcases List.mem_cons.mp hcq with rfl | hcq
    · have hd := h _ hp d List.mem_cons_self
      rw [isAlnum, isLetter, isLower_upper, isUpper_upper_iff, isDigit_upper, Bool.or_false]
      exact hd
    · exact h _ hp c (List.mem_cons_of_mem _ hcq)

theorem underscore_named_alike (h : ∀ p ∈ rest, ∀ c ∈ p, isAlnum c = true) (hne : rest ≠ []) (prev : Option Char) :
    '_' :: bzlLoop none (['_'].intercalate rest) = bzlLoop prev (rest.map capitalize).flatten ↔
      afterSmall prev = true ∧ RegularParts rest := by
  -- by induction on the parts: the underscore of the base name has to be the one the generator puts before
  -- the capital that the next part then starts with
  induction rest generalizing prev with
  | nil => exact absurd rfl hne
  | cons p rest ih =>
    have hrest : ∀ q ∈ rest, ∀ c ∈ q, isAlnum c = true := fun q hq => h q (List.mem_cons_of_mem _ hq)
    cases p with
    | nil =>
      -- two underscores in a row, or one at the end: the generator never writes these
      have hbad : ¬ RegularParts ([] :: rest) := fun hreg => absurd (hreg.1 [] List.mem_cons_self) (by decide)
      refine iff_of_false ?_ fun hreg => hbad hreg.2
      cases rest with
      | nil => exact List.cons_ne_nil _ _
      | cons q rest => exact fun heq => bzlLoop_ne_double (flatten_alnum hrest) prev _ heq.symm
    | cons c p =>
      have hc := lower_ne_underscore (h _ List.mem_cons_self c List.mem_cons_self)
      have hcons : bzlLoop prev (((c :: p) :: rest).map capitalize).flatten =
          (if isLetter c && afterSmall prev then ['_'] else []) ++
            bzlLoop none (((c :: p) :: rest).map capitalize).flatten := by
        rw [← isUpper_upper_iff]
        exact bzlLoop_cons prev (upper c) _
      rw [hcons]
      by_cases hins : isLetter c = true ∧ afterSmall prev = true
      · rw [hins.1, hins.2, Bool.and_self, if_pos rfl, List.singleton_append, List.cons_inj_right,
          named_alike_of_rest (h _ List.mem_cons_self) hins.1 fun hne prev => ih hrest hne prev]
        exact (and_iff_right rfl).symm
      · have hfalse : (isLetter c && afterSmall prev) = false := by
          rw [← Bool.not_eq_true, Bool.and_eq_true]
          exact hins
        rw [hfalse]
        refine iff_of_false ?_ ?_
        · intro heq
          -- without one the name goes on with the first character of the part
          have hfirst : bzlLoop none (((c :: p) :: rest).map capitalize).flatten =
              lower (upper c) :: bzlLoop (some (upper c)) (p ++ (rest.map capitalize).flatten) :=
            bzlLoop_none_cons (upper c) _
          rw [hfirst, lower_upper] at heq
          exact hc (List.cons.inj heq).1.symm
        · rintro ⟨hprev, hreg⟩
          refine hins ⟨?_, hprev⟩
          have hstart := hreg.1 _ List.mem_cons_self
          cases p with
          | nil => exact hstart
          | cons d p => exact (Bool.and_eq_true_iff.mp hstart).1

end Parts

section Split

theorem mem_splitOn {s : List Char} :
    ∀ p ∈ s.splitOn '_', ∀ c ∈ p, c ∈ s ∧ c ≠ '_' := by
  induction s with
  | nil =>
    intro p hp c hc
    rw [List.splitOn_nil, List.mem_singleton] at hp
    rw [hp] at hc
    cases hc
  | cons d s ih =>
    have hrest : ∀ p ∈ s.splitOn '_', ∀ c ∈ p, c ∈ d :: s ∧ c ≠ '_' :=
      fun p hp c hc => ⟨List.mem_cons_of_mem _ (ih p hp c hc).1, (ih p hp c hc).2⟩
    rw [List.splitOn_cons_eq_if_modifyHead]
    split_ifs with hd
    · rw [List.forall_mem_cons]
      exact ⟨fun c hc => absurd hc List.not_mem_nil, hrest⟩
    · obtain ⟨q, qs, hq⟩ := List.exists_cons_of_ne_nil (List.splitOn_ne_nil '_' s)
      rw [hq, List.forall_mem_cons] at hrest
      rw [hq, List.modifyHead_cons, List.forall_mem_cons, List.forall_mem_cons]
      exact ⟨⟨⟨List.mem_cons_self, fun h => hd (beq_iff_eq.mpr h)⟩, hrest.1⟩, hrest.2⟩

theorem splitOn_cons {c : Char} (h : c ≠ '_') (s : List Char) :
    ∃ p rest, (c :: s).splitOn '_' = (c :: p) :: rest := by
  obtain ⟨p, rest, hs⟩ := List.exists_cons_of_ne_nil (List.splitOn_ne_nil '_' s)
  refine ⟨p, rest, ?_⟩
  rw [List.splitOn_cons_eq_if_modifyHead, if_neg (fun hc => h (beq_iff_eq.mp hc)), hs]
  rfl

end Split

section Headers

/-- The base name of an interface file: letters, digits and underscores, a letter first. -/
structure BaseName where
  text : List Char
  chars : ∀ c ∈ text, identTail c = true
  head : ∃ c ∈ text.head?, isLetter c = true

def BaseName.Regular (base : BaseName) : Prop := RegularParts (base.text.splitOn '_')

theorem BaseName.splitOn_eq (base : BaseName) :
    ∃ c p rest, isLetter c = true ∧ base.text.splitOn '_' = (c :: p) :: rest := by
  obtain ⟨c, hc, hletter⟩ := base.head
  obtain ⟨s, hs⟩ : ∃ s, base.text = c :: s := List.head?_eq_some_iff.mp hc
  have hunder : c ≠ '_' := by
    rintro rfl
    exact absurd hletter (by decide)
  obtain ⟨p, rest, hparts⟩ := splitOn_cons hunder s
  exact ⟨c, p, rest, hletter, by rw [hs, hparts]⟩

/-- Both functions of the generator give the name of the build rule. -/
theorem camelToSnake_snakeToCamel_iff (base : BaseName) :
    bzlCamelToSnake base.text = camelToSnake (snakeToCamel base.text) ↔ base.Regular := by
  have halnum : ∀ p ∈ base.text.splitOn '_', ∀ c ∈ p, isAlnum c = true := by
    intro p hp c hc
    obtain ⟨hmem, hne⟩ := mem_splitOn p hp c hc
    have hident := base.chars c hmem
    rw [identTail, Bool.or_eq_true, beq_iff_eq] at hident
    exact hident.resolve_right hne
  obtain ⟨c, p, rest, hletter, hparts⟩ := base.splitOn_eq
  have hjoin : ['_'].intercalate (base.text.splitOn '_') = base.text := List.intercalate_splitOn '_'
  rw [camelToSnake_eq, bzlCamelToSnake, bzlCamelToSnake, snakeToCamel, BaseName.Regular]
  rw [hparts] at hjoin halnum ⊢
  rw [← hjoin]
  refine named_alike_of_rest (halnum _ List.mem_cons_self) hletter fun hne prev => ?_
  exact underscore_named_alike (fun q hq => halnum q (List.mem_cons_of_mem _ hq)) hne prev

inductive FileKind where
  | msg
  | srv

def FileKind.ext : FileKind → List Char
  | .msg => ".msg".toList
  | .srv => ".srv".toList

/-- The path or label of an interface file in a directory. -/
def filePath (dir : List Char) (base : BaseName) (kind : FileKind) : List Char := dir ++ '/' :: (base.text ++ kind.ext)

theorem BaseName.not_mem (base : BaseName) {c : Char} (h : identTail c = false) : c ∉ base.text := by
  intro hc
  rw [base.chars c hc] at h
  cases h

theorem basename_filePath (dir : List Char) (base : BaseName) (kind : FileKind) :
    basename (filePath dir base kind) = base.text ++ kind.ext := by
  have hfile : '/' ∉ base.text ++ kind.ext := by
    rw [List.mem_append, not_or]
    refine ⟨base.not_mem (by decide), ?_⟩
    cases kind with
    | msg => decide
    | srv => decide
  rw [basename, filePath, Tokens.rfind_append dir hfile]
  simp

theorem stem_file (base : BaseName) (kind : FileKind) : stem (base.text ++ kind.ext) = base.text := by
  obtain ⟨ext, hext, hdot⟩ : ∃ ext, kind.ext = '.' :: ext ∧ '.' ∉ ext := by
    cases kind with
    | msg => exact ⟨"msg".toList, rfl, by decide⟩
    | srv => exact ⟨"srv".toList, rfl, by decide⟩
  rw [stem, hext, Tokens.rfind_append base.text hdot]
  simp

theorem typeName_filePath (dir : List Char) (base : BaseName) (kind : FileKind) :
    typeName? (filePath dir base kind) = some (snakeToCamel base.text) := by
  have hext : (".msg".toList.isSuffixOf (base.text ++ kind.ext) ||
      ".srv".toList.isSuffixOf (base.text ++ kind.ext)) = true := by
    rw [Bool.or_eq_true, List.isSuffixOf_iff_suffix, List.isSuffixOf_iff_suffix]
    cases kind with
    | msg => exact .inl (List.suffix_append _ _)
    | srv => exact .inr (List.suffix_append _ _)
  have hlen : kind.ext.length = 4 := by
    cases kind with
    | msg => rfl
    | srv => rfl
  have htake : (base.text ++ kind.ext).take ((base.text ++ kind.ext).length - 4) = base.text := by
    rw [List.length_append, hlen, Nat.add_sub_cancel, List.take_left]
  rw [typeName?]
  simp only [basename_filePath, hext, htake, if_true]

theorem writtenHeader_filePath (package dir : List Char) (base : BaseName) (kind : FileKind) :
    writtenHeader? package (filePath dir base kind) =
      some (headerPath package (camelToSnake (snakeToCamel base.text))) := by
  rw [writtenHeader?, typeName_filePath]
  rfl

theorem file_of_framed {root package ext a b : List Char} {c : Char}
    (h : root ++ (package ++ c :: (a ++ ext)) = root ++ (package ++ c :: (b ++ ext))) : a = b := by
  have hfile := (List.cons.inj (List.append_cancel_left (List.append_cancel_left h))).2
  exact List.append_cancel_right hfile

theorem headerPath_inj {package a b : List Char} (h : headerPath package a = headerPath package b) : a = b :=
  file_of_framed h

theorem splitPkgType_qualified (package : Ident) {name : List Char} (hname : name ≠ []) :
    splitPkgType (package.text ++ '/' :: name) = .ok (package.text, name) := by
  have hcut : partition ['/'] (package.text ++ (['/'] ++ name)) = some (package.text, name) := by
    refine partition_append (by decide) fun t ht hne hpre => ?_
    obtain ⟨c, t, rfl⟩ := List.exists_cons_of_ne_nil hne
    have hc : c = '/' := by
      obtain ⟨u, hu⟩ := hpre
      exact (List.cons.inj hu).1.symm
    have hident := Ident.mem_text (ht.subset List.mem_cons_self)
    rw [hc] at hident
    exact absurd hident (by decide)
  have hempty : (package.text.isEmpty || name.isEmpty) = false := by
    rw [Bool.or_eq_false_iff]
    refine ⟨rfl, ?_⟩
    rw [← Bool.not_eq_true, List.isEmpty_iff]
    exact hname
  rw [List.singleton_append] at hcut
  rw [splitPkgType, hcut]
  simp only [hempty]
  rfl

/-- Each nested type is split into package and name, and included unless it is the header itself. -/
theorem included_of_mem {ownPackage : List Char} {ownName : Option (List Char)} {members : List Member}
    {lines : List (List Char)} (h : includeDeps ownPackage ownName members = .ok lines) {m : Member}
    (hm : m ∈ members) (hnested : (primKeys.contains m.rosType || m.rosType == "string".toList) = false) :
    ∃ pn, splitPkgType m.rosType = .ok pn ∧
      ((pn.1 = ownPackage ∧ some pn.2 = ownName) ∨ includeLine pn.1 pn.2 ∈ lines) := by
  induction members generalizing lines with
  | nil => cases hm
  | cons m' ms ih =>
    rw [includeDeps] at h
    split_ifs at h with hprim
    · rcases List.mem_cons.mp hm with rfl | hm
      · rw [hnested] at hprim
        cases hprim
      · exact ih h hm
    · obtain ⟨pn, hsplit, h⟩ := Checks.bind_eq_ok.mp h
      obtain ⟨rest, hdeps, h⟩ := Checks.bind_eq_ok.mp h
      obtain rfl := Except.ok.inj h
      rcases List.mem_cons.mp hm with rfl | hm
      · refine ⟨pn, hsplit, ?_⟩
        by_cases hown : pn.1 = ownPackage ∧ some pn.2 = ownName
        · exact .inl hown
        · rw [if_neg hown]
          exact .inr List.mem_cons_self
      · obtain ⟨qn, hq, hmem⟩ := ih hdeps hm
        refine ⟨qn, hq, hmem.imp_right fun hrest => ?_⟩
        split_ifs
        · exact hrest
        · exact List.mem_cons_of_mem _ hrest

theorem nested_of_slash {rosType : List Char} (h : '/' ∈ rosType) :
    (primKeys.contains rosType || rosType == "string".toList) = false := by
  have hkeys : ∀ k ∈ primKeys, '/' ∉ k := by decide
  rw [← Bool.not_eq_true, Bool.or_eq_true, List.contains_iff_mem, beq_iff_eq]
  rintro (hprim | rfl)
  · exact hkeys _ hprim h
  · exact absurd h (by decide)

/-- A nested type is included under the name of its own header. -/
theorem includeLine_mem_includeDeps {package : Ident} {name ownPackage : List Char} {ownName : Option (List Char)}
    (hname : name ≠ []) (hown : ¬ (package.text = ownPackage ∧ some name = ownName)) {m : Member}
    (htype : m.rosType = package.text ++ '/' :: name) {members : List Member} (hm : m ∈ members)
    {lines : List (List Char)} (h : includeDeps ownPackage ownName members = .ok lines) :
    includeLine package.text name ∈ lines := by
  have hslash : '/' ∈ m.rosType := by
    rw [htype]
    exact List.mem_append_right _ List.mem_cons_self
  obtain ⟨pn, hsplit, hmem⟩ := included_of_mem h hm (nested_of_slash hslash)
  rw [htype, splitPkgType_qualified package hname] at hsplit
  obtain rfl := Except.ok.inj hsplit
  exact hmem.resolve_left hown

/-- The three names of the header of an interface file agree: the output the build rule declares, the file
the generator writes, and the file the headers of other types include. -/
structure HeadersAgree (package : Ident) (label path : List Char) : Prop where
  declared : writtenHeader? package.text path = some (declaredHeader package.text label)
  included : ∀ name msgs ownPackage ownName lines, typeName? path = some name →
    includesFor msgs ownPackage ownName = .ok lines → ¬ (package.text = ownPackage ∧ some name = ownName) →
    (∃ msg ∈ msgs, ∃ m ∈ msg.members, m.rosType = package.text ++ '/' :: name) →
    ∃ header, writtenHeader? package.text path = some header ∧ "#include \"".toList ++ (header ++ ['"']) ∈ lines

theorem snakeToCamel_ne_nil (base : BaseName) : snakeToCamel base.text ≠ [] := by
  obtain ⟨c, p, rest, -, hparts⟩ := base.splitOn_eq
  rw [snakeToCamel, hparts]
  exact List.cons_ne_nil _ _

/-- The build rule and the generator name the same header exactly for the base names whose parts between
underscores all start with a letter, none with a small letter right before a capital, and, but for the last,
end in a digit or in a small letter after their first. -/
theorem header_names_agree_iff (package : Ident) (labelDir dir : List Char) (base : BaseName) (kind : FileKind) :
    HeadersAgree package (filePath labelDir base kind) (filePath dir base kind) ↔ base.Regular := by
  rw [← camelToSnake_snakeToCamel_iff]
  constructor
  · intro h
    have hwritten := h.declared
    rw [writtenHeader_filePath, declaredHeader, basename_filePath, stem_file] at hwritten
    exact (headerPath_inj (Option.some.inj hwritten)).symm
  · intro h
    refine ⟨?_, ?_⟩
    · rw [writtenHeader_filePath, declaredHeader, basename_filePath, stem_file, h]
    · rintro name msgs ownPackage ownName lines hname hlines hown ⟨msg, hmsg, m, hm, htype⟩
      rw [typeName_filePath] at hname
      obtain rfl := Option.some.inj hname
      refine ⟨_, writtenHeader_filePath package.text dir base kind, ?_⟩
      rw [includesFor] at hlines
      cases hdeps : includeDeps ownPackage ownName (msgs.flatMap MsgDef.members) with
      | error e =>
        rw [hdeps] at hlines
        cases hlines
      | ok deps =>
        rw [hdeps] at hlines
        obtain rfl := Except.ok.inj hlines
        rw [SortBy.mem_toSet]
        exact includeLine_mem_includeDeps (snakeToCamel_ne_nil base) hown htype
          (List.mem_flatMap.mpr ⟨msg, hmsg, hm⟩) hdeps

/-- `xRay.msg`: the build declares `x_ray.hpp`, the generator writes `xray.hpp`. -/
theorem camel_case_header_not_written :
    declaredHeader "sensors".toList "@sensors//:msg/xRay.msg".toList = "rcllite_types/sensors/x_ray.hpp".toList ∧
      writtenHeader? "sensors".toList "msg/xRay.msg".toList = some "rcllite_types/sensors/xray.hpp".toList ∧
      writtenHeader? "sensors".toList "msg/xRay.msg".toList ≠
        some (declaredHeader "sensors".toList "@sensors//:msg/xRay.msg".toList) := by
  decide

end Headers

end Rcllite.Interface
