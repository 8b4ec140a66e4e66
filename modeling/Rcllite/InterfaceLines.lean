import Rcllite.InterfaceFile
import Mathlib.Tactic.SplitIfs

/-! How a line is taken apart: the two expressions of `parse_msg` on lines of a known build, and the loop
over the lines. -/
namespace Rcllite.Interface
open PyText Regex

section Classes

theorem isUpper_iff {c : Char} : isUpper c = true ↔ 0x41 ≤ c.toNat ∧ c.toNat ≤ 0x5a := by
  simp only [isUpper, Bool.and_eq_true, decide_eq_true_eq, Char.le_def, UInt32.le_iff_toNat_le]
  exact Iff.rfl

theorem isLower_iff {c : Char} : isLower c = true ↔ 0x61 ≤ c.toNat ∧ c.toNat ≤ 0x7a := by
  simp only [isLower, Bool.and_eq_true, decide_eq_true_eq, Char.le_def, UInt32.le_iff_toNat_le]
  exact Iff.rfl

theorem isDigit_iff {c : Char} : isDigit c = true ↔ 0x30 ≤ c.toNat ∧ c.toNat ≤ 0x39 := by
  simp only [isDigit, Bool.and_eq_true, decide_eq_true_eq, Char.le_def, UInt32.le_iff_toNat_le]
  exact Iff.rfl

theorem eq_iff_toNat {c d : Char} : c = d ↔ c.toNat = d.toNat :=
  ⟨congrArg Char.toNat, fun h => Char.ext (UInt32.toNat_inj.mp h)⟩

theorem typeTail_iff {c : Char} :
    typeTail c = true ↔ (0x41 ≤ c.toNat ∧ c.toNat ≤ 0x5a) ∨ (0x61 ≤ c.toNat ∧ c.toNat ≤ 0x7a) ∨
      (0x2f ≤ c.toNat ∧ c.toNat ≤ 0x39) ∨ c.toNat = 0x5f := by
  have hunder : (c = '_') ↔ c.toNat = 0x5f := eq_iff_toNat
  have hslash : (c = '/') ↔ c.toNat = 0x2f := eq_iff_toNat
  simp only [typeTail, identTail, Bool.or_eq_true, isUpper_iff, isLower_iff, isDigit_iff, beq_iff_eq, hunder,
    hslash]
  omega

theorem typeTail_of_identTail {c : Char} (h : identTail c = true) : typeTail c = true := by
  rw [typeTail, h, Bool.true_or]

theorem identTail_of_identHead {c : Char} (h : identHead c = true) : identTail c = true := by
  simp only [identHead, identTail, Bool.or_eq_true] at h ⊢
  tauto

theorem identTail_of_constTail {c : Char} (h : constTail c = true) : identTail c = true := by
  simp only [constTail, identTail, Bool.or_eq_true] at h ⊢
  tauto

theorem constTail_of_constHead {c : Char} (h : constHead c = true) : constTail c = true := by
  simp only [constHead, constTail, Bool.or_eq_true] at h ⊢
  tauto

theorem identHead_of_isLower {c : Char} (h : isLower c = true) : identHead c = true := by
  rw [identHead, h, Bool.or_true, Bool.true_or]

theorem identTail_of_digit {c : Char} (h : 0x30 ≤ c.toNat ∧ c.toNat ≤ 0x39) : identTail c = true := by
  rw [identTail, isDigit_iff.mpr h, Bool.or_true, Bool.true_or]

/-- The characters of a name or a type stand in no white space. -/
theorem isSpace_of_typeTail {c : Char} (h : typeTail c = true) : isSpace c = false := by
  rw [typeTail_iff] at h
  simp only [isSpace, Bool.or_eq_false_iff, Bool.and_eq_false_iff, decide_eq_false_iff_not, beq_eq_false_iff_ne]
  omega

theorem isSpace_of_identTail {c : Char} (h : identTail c = true) : isSpace c = false :=
  isSpace_of_typeTail (typeTail_of_identTail h)

theorem excludes_symm {a b : Bool} (h : a = true → b = false) (hb : b = true) : a = false := by
  by_contra ha
  rw [Bool.not_eq_false] at ha
  rw [h ha] at hb
  cases hb

/-- A character of a class is none that the class lacks. -/
theorem beq_of_class {p : Char → Bool} {c : Char} (hc : p c = true) (d : Char) (hd : p d = false) :
    (c == d) = false := by
  rw [beq_eq_false_iff_ne]
  rintro rfl
  rw [hc] at hd
  cases hd

theorem isSpace_of_constTail {c : Char} (h : constTail c = true) : isSpace c = false :=
  isSpace_of_identTail (identTail_of_constTail h)

theorem isSpace_of_constHead {c : Char} (h : constHead c = true) : isSpace c = false :=
  isSpace_of_constTail (constTail_of_constHead h)

theorem isSpace_of_isLower {c : Char} (h : isLower c = true) : isSpace c = false :=
  isSpace_of_identTail (identTail_of_identHead (identHead_of_isLower h))

theorem identTail_of_isSpace {c : Char} (h : isSpace c = true) : identTail c = false :=
  excludes_symm isSpace_of_identTail h

theorem constTail_of_isSpace {c : Char} (h : isSpace c = true) : constTail c = false :=
  excludes_symm isSpace_of_constTail h

theorem constHead_of_isSpace {c : Char} (h : isSpace c = true) : constHead c = false :=
  excludes_symm isSpace_of_constHead h

theorem isLower_of_isSpace {c : Char} (h : isSpace c = true) : isLower c = false :=
  excludes_symm isSpace_of_isLower h

theorem constHead_of_isLower {c : Char} (h : isLower c = true) : constHead c = false := by
  rw [isLower_iff] at h
  have hunder : (c = '_') ↔ c.toNat = 0x5f := eq_iff_toNat
  rw [← Bool.not_eq_true]
  simp only [constHead, Bool.or_eq_true, beq_iff_eq, hunder, isUpper_iff]
  omega

end Classes

/-- What stands first in a text that is not empty. -/
theorem head?_append {p : Char → Bool} {s rest : List Char} (hne : s ≠ []) (h : ∀ c ∈ s, p c = true) :
    ∀ c ∈ (s ++ rest).head?, p c = true := by
  obtain ⟨d, s, rfl⟩ := List.exists_cons_of_ne_nil hne
  rintro c ⟨⟩
  exact h d List.mem_cons_self

section Constant

theorem matchStart_constant {h n : Char} {t gap ns before value : List Char} (hh : identHead h = true)
    (ht : ∀ c ∈ t, identTail c = true) (hne : gap ≠ []) (hgap : ∀ c ∈ gap, isSpace c = true)
    (hn : constHead n = true) (hns : ∀ c ∈ ns, constTail c = true) (hbefore : ∀ c ∈ before, isSpace c = true) :
    (matchStart constantRe (h :: (t ++ (gap ++ n :: (ns ++ (before ++ '=' :: value)))))).isSome := by
  have hgapHead : ∀ c ∈ (gap ++ n :: (ns ++ (before ++ '=' :: value))).head?, identTail c = false :=
    fun c hc => identTail_of_isSpace (head?_append hne hgap c hc)
  have hbeforeHead : ∀ c ∈ (before ++ '=' :: value).head?, constTail c = false := by
    cases before with
    | nil =>
      rintro c ⟨⟩
      decide
    | cons d before =>
      exact fun c hc => constTail_of_isSpace
        (head?_append (List.cons_ne_nil d before) hbefore c hc)
  rw [matchStart, constantRe, run_seq, run_cls hh, run_seq, run_many ht hgapHead, run_seq,
    run_plus hne hgap, run_seq, run_cls hn, run_seq, run_many hns hbeforeHead, run_seq,
    run_many hbefore, run_cls (by decide)]
  · rfl
  · rintro c ⟨⟩
    decide
  -- what comes next never starts inside the run before it
  · exact .inl fun c hc cs => run_cls_of_not (beq_of_class (hbefore c hc) '=' (by decide))
  · left
    intro c hc cs
    rw [run_seq]
    refine (run_many_blocked (fun d hd ds => run_cls_of_not (beq_of_class hd '=' (by decide))) _).trans ?_
    rw [List.dropWhile_cons_of_neg (by simp [isSpace_of_constTail (hns c hc)])]
    exact run_cls_of_not (beq_of_class (hns c hc) '=' (by decide))
  · rintro c ⟨⟩
    exact isSpace_of_constHead hn
  · exact .inl fun c hc cs => run_cls_of_not (constHead_of_isSpace (hgap c hc))
  · exact .inl fun c hc cs => run_plus_of_not (isSpace_of_identTail (ht c hc))

/-- Where the first name of a type ends: at what follows the type or at its slash. -/
theorem dropWhile_type {t rest : List Char} (ht : ∀ c ∈ t, typeTail c = true)
    (hrest : ∀ c ∈ rest.head?, identTail c = false) :
    (t ++ rest).dropWhile identTail = rest ∨ ∃ cs, (t ++ rest).dropWhile identTail = '/' :: cs := by
  induction t with
  | nil =>
    left
    cases rest with
    | nil => rfl
    | cons c rest => exact List.dropWhile_cons_of_neg (by simp [hrest c rfl])
  | cons c t ih =>
    by_cases hc : identTail c = true
    · rw [List.cons_append, List.dropWhile_cons_of_pos hc]
      exact ih fun d hd => ht d (List.mem_cons_of_mem _ hd)
    · right
      refine ⟨t ++ rest, ?_⟩
      have hslash : c = '/' := by
        have h := ht c List.mem_cons_self
        rw [typeTail, Bool.or_eq_true, beq_iff_eq] at h
        exact h.resolve_left hc
      rw [List.cons_append, List.dropWhile_cons_of_neg hc, hslash]

/-- A member is never taken for a constant: its name starts with a small letter, and whatever stands
between its type and its name is not white space alone. -/
theorem matchStart_constant_none {h n : Char} {t mid gap rest : List Char}
    (ht : ∀ c ∈ t, typeTail c = true) (hmid : ∀ c ∈ mid.head?, c = '<' ∨ c = '[')
    (hne : gap ≠ []) (hgap : ∀ c ∈ gap, isSpace c = true) (hn : isLower n = true) :
    matchStart constantRe (h :: (t ++ (mid ++ (gap ++ n :: rest)))) = none := by
  by_cases hh : identHead h = true
  · rw [matchStart, constantRe, run_seq, run_cls hh, run_seq, run_many_blocked, run_seq]
    swap
    · exact fun c hc cs => run_plus_of_not (isSpace_of_identTail hc)
    cases mid with
    | nil =>
      have hhead : ∀ c ∈ (gap ++ n :: rest).head?, identTail c = false :=
        fun c hc => identTail_of_isSpace (head?_append hne hgap c hc)
      rcases dropWhile_type ht hhead with hdrop | ⟨cs, hdrop⟩
      · rw [List.nil_append, hdrop, run_plus hne hgap]
        · exact run_cls_of_not (constHead_of_isLower hn)
        · rintro c ⟨⟩
          exact isSpace_of_isLower hn
        · exact .inl fun c hc cs => run_cls_of_not (constHead_of_isSpace (hgap c hc))
      · rw [List.nil_append, hdrop]
        exact run_plus_of_not (by decide)
    | cons d mid =>
      have hd : d = '<' ∨ d = '[' := hmid d rfl
      have hident : identTail d = false ∧ isSpace d = false := by
        rcases hd with rfl | rfl
        · decide
        · decide
      have hhead : ∀ c ∈ (d :: mid ++ (gap ++ n :: rest)).head?, identTail c = false := by
        rintro c ⟨⟩
        exact hident.1
      rcases dropWhile_type ht hhead with hdrop | ⟨cs, hdrop⟩
      · rw [hdrop]
        exact run_plus_of_not hident.2
      · rw [hdrop]
        exact run_plus_of_not (by decide)
  · rw [Bool.not_eq_true] at hh
    rw [matchStart, constantRe, run_seq, run_cls_of_not hh]

end Constant

section Member
open Re

/-- Where a match of the member expression ends. -/
def done : List Char → Groups Char → Option (Groups Char) := fun _ g => some g

def atDefault : List Char → Groups Char → Option (Groups Char) := run (seq (opt defaultRe) (look atEnd)) done
def atName : List Char → Groups Char → Option (Groups Char) := run (group 3 nameRe) atDefault
def atGap : List Char → Groups Char → Option (Groups Char) := run (plus isSpace) atName
def atBracket : List Char → Groups Char → Option (Groups Char) := run (opt (group 2 bracketRe)) atGap

theorem matchStart_memberRe (line : List Char) :
    matchStart memberRe line = run (group 1 typeRe) atBracket line (fun _ => none) := rfl

/-- A default, with the blanks before it. -/
structure DefaultText (gap text : List Char) : Prop where
  gap_ne : gap ≠ []
  gap_space : ∀ c ∈ gap, isSpace c = true
  head : ∃ c ∈ text.head?, isSpace c = false
  oneLine : ∀ c ∈ text, (c != '\n') = true

theorem atDefault_nil (g : Groups Char) : atDefault [] g = some g := rfl

theorem atDefault_text {gap text : List Char} (h : DefaultText gap text) (g : Groups Char) :
    atDefault (gap ++ text) g = some (g.set 4 (some text)) := by
  have hall : run (group 4 (many (· != '\n'))) (run (look atEnd) done) text g = some (g.set 4 (some text)) := by
    have hrest : ∀ c ∈ ([] : List Char).head?, (c != '\n') = false := by simp
    rw [← List.append_nil text, run_group, run_many h.oneLine hrest]
    · simp [atEnd, done]
    · exact .inr (by simp [atEnd, done])
  have hhead : ∀ c ∈ text.head?, isSpace c = false := by
    obtain ⟨d, hd, hspace⟩ := h.head
    intro c hc
    obtain rfl : d = c := Option.mem_unique hd hc
    exact hspace
  have hdefault : run defaultRe (run (look atEnd) done) (gap ++ text) g = some (g.set 4 (some text)) := by
    rw [defaultRe, run_seq, run_plus h.gap_ne h.gap_space hhead (.inr (by rw [hall]; rfl)), hall]
  rw [atDefault, run_seq, run_opt_of_some (by rw [hdefault]; rfl), hdefault]

theorem atDefault_blocked {c : Char} (hc : identTail c = true) (cs : List Char) (g : Groups Char) :
    atDefault (c :: cs) g = none := by
  have hend : atEnd (c :: cs) = false := by
    have hnl : c ≠ '\n' := by
      rw [← beq_eq_false_iff_ne]
      exact beq_of_class hc '\n' (by decide)
    simp [atEnd, hnl]
  rw [atDefault, run_seq, run_opt_of_none]
  · rw [run_look, hend]
    rfl
  · rw [defaultRe, run_seq, run_plus_of_not (isSpace_of_identTail hc)]

theorem atName_name {n : Char} {ns rest : List Char} (hn : isLower n = true) (hns : ∀ c ∈ ns, identTail c = true)
    (hrest : ∀ c ∈ rest.head?, identTail c = false) (g : Groups Char) :
    atName (n :: (ns ++ rest)) g = atDefault rest (g.set 3 (some (n :: ns))) := by
  rw [atName, run_group, nameRe, run_seq, run_cls hn, run_many hns hrest]
  · rw [← List.cons_append, take_captured]
  · exact .inl fun c hc cs => atDefault_blocked (hns c hc) _ _

theorem atGap_gap {n : Char} {gap rest : List Char} (hne : gap ≠ []) (hgap : ∀ c ∈ gap, isSpace c = true)
    (hn : isLower n = true) (g : Groups Char) : atGap (gap ++ n :: rest) g = atName (n :: rest) g := by
  rw [atGap, run_plus hne hgap]
  · rintro c ⟨⟩
    exact isSpace_of_isLower hn
  · left
    intro c hc cs
    rw [atName, run_group, nameRe, run_seq, run_cls_of_not (isLower_of_isSpace (hgap c hc))]

theorem atBracket_none {c : Char} {cs : List Char} (hc : c ≠ '[') (g : Groups Char) :
    atBracket (c :: cs) g = atGap (c :: cs) g := by
  rw [atBracket, run_opt_of_none]
  rw [run_group, bracketRe, run_seq]
  exact run_cls_of_not (beq_eq_false_iff_ne.mpr hc)

theorem atBracket_bracket {inner rest : List Char} (hinner : ']' ∉ inner) (g : Groups Char) :
    atBracket ('[' :: (inner ++ ']' :: rest)) g = atGap rest (g.set 2 (some ('[' :: (inner ++ [']'])))) := by
  have hmatch : run (group 2 bracketRe) atGap ('[' :: (inner ++ ']' :: rest)) g =
      atGap rest (g.set 2 (some ('[' :: (inner ++ [']'])))) := by
    rw [run_group, bracketRe, run_seq, run_cls (by decide), run_seq, run_many, run_cls (by decide)]
    · rw [show '[' :: (inner ++ ']' :: rest) = ('[' :: (inner ++ [']'])) ++ rest by simp, take_captured]
    · intro c hc
      rw [bne_iff_ne]
      rintro rfl
      exact hinner hc
    · rintro c ⟨⟩
      decide
    · left
      intro c hc cs
      refine run_cls_of_not (beq_eq_false_iff_ne.mpr ?_)
      rintro rfl
      exact hinner hc
  rw [atBracket, run_opt, hmatch]
  -- without the bracket the blanks are missing, so there is nothing to fall back on
  rw [show atGap ('[' :: (inner ++ ']' :: rest)) g = none from run_plus_of_not (by decide), Option.or_none]

theorem atBracket_blocked {c : Char} (hc : c ≠ '[') (hspace : isSpace c = false) (cs : List Char)
    (g : Groups Char) : atBracket (c :: cs) g = none := by
  rw [atBracket_none hc, atGap, run_plus_of_not hspace]

/-- The bound of a bounded string. -/
def Bound (text : List Char) : Prop := text = [] ∨ ∃ ds, Digits ds ∧ text = '<' :: '=' :: ds

/-- What can stand right after a type. -/
def AfterType (d : Char) : Prop := d = '[' ∨ d = ' ' ∨ d = '\t'

theorem AfterType.excluded {d : Char} (h : AfterType d) :
    typeTail d = false ∧ isDecimal d = false ∧ (d == '<') = false := by
  rcases h with rfl | rfl | rfl
  · decide
  · decide
  · decide

theorem atType {h d : Char} {t bound rest : List Char} (hh : identHead h = true)
    (ht : ∀ c ∈ t, typeTail c = true) (hbound : Bound bound) (hd : AfterType d) (g : Groups Char) :
    run (group 1 typeRe) atBracket (h :: (t ++ (bound ++ d :: rest))) g =
      atBracket (d :: rest) (g.set 1 (some (h :: (t ++ bound)))) := by
  have hblock {c : Char} (hc : typeTail c = true) (cs : List Char) (g : Groups Char) :
      atBracket (c :: cs) g = none :=
    atBracket_blocked (beq_eq_false_iff_ne.mp (beq_of_class hc '[' (by decide))) (isSpace_of_typeTail hc) cs g
  have hhead : ∀ c ∈ (bound ++ d :: rest).head?, typeTail c = false := by
    rcases hbound with rfl | ⟨ds, -, rfl⟩
    · rintro c ⟨⟩
      exact hd.excluded.1
    · rintro c ⟨⟩
      decide
  have htake : (h :: (t ++ (bound ++ d :: rest))).take
      ((h :: (t ++ (bound ++ d :: rest))).length - (d :: rest).length) = h :: (t ++ bound) := by
    rw [show h :: (t ++ (bound ++ d :: rest)) = (h :: (t ++ bound)) ++ (d :: rest) by simp, take_captured]
  rw [run_group, typeRe, run_seq, run_cls hh, run_seq, run_many ht hhead]
  · rcases hbound with rfl | ⟨ds, hds, rfl⟩
    · rw [List.nil_append] at htake ⊢
      rw [run_opt_of_none, htake]
      exact run_cls_of_not hd.excluded.2.2
    · have hdigits : ∀ c ∈ ds, isDecimal c = true := fun c hc => isDecimal_of_digit (hds.2 c hc)
      rw [run_opt, run_seq, List.cons_append, run_cls (by decide), run_seq, List.cons_append, run_cls (by decide),
        run_plus hds.1 hdigits]
      · rw [atBracket_blocked (c := '<') (by decide) (by decide), Option.or_none]
        simp only [List.cons_append] at htake
        rw [htake]
      · rintro c ⟨⟩
        exact hd.excluded.2.1
      · exact .inl fun c hc cs => hblock (typeTail_of_identTail (identTail_of_digit (hds.2 c hc))) _ _
  · left
    intro c hc cs
    rw [run_opt_of_none]
    · exact hblock (ht c hc) _ _
    · exact run_cls_of_not (beq_of_class (ht c hc) '<' (by decide))

end Member

section Loop
variable {package name : List Char}

theorem parseLine_nil : parseLine package name [] = .ok none := rfl

theorem parseLines_cons {raw : List Char} {m : Option Member} (h : parseLine package name raw = .ok m)
    (rest : List (List Char)) :
    parseLines package name (raw :: rest) = (parseLines package name rest).map (m.toList ++ ·) := by
  rw [parseLines, h]
  cases parseLines package name rest with
  | error e => rfl
  | ok ms => rfl

/-- An empty line at the end declares nothing. -/
theorem parseLines_snoc_nil (ls : List (List Char)) :
    parseLines package name (ls ++ [[]]) = parseLines package name ls := by
  induction ls with
  | nil => rfl
  | cons l ls ih => rw [List.cons_append, parseLines, parseLines, ih]

/-- A line that cannot be read makes the whole text unreadable, whatever stands before or after it. -/
theorem parseLines_error {ls : List (List Char)} {raw : List Char} {e : ValueError} (hmem : raw ∈ ls)
    (h : parseLine package name raw = .error e) : ∃ e', parseLines package name ls = .error e' := by
  induction ls with
  | nil => cases hmem
  | cons l ls ih =>
    rw [parseLines]
    cases hl : parseLine package name l with
    | error e' => exact ⟨e', rfl⟩
    | ok m =>
      rcases List.mem_cons.mp hmem with rfl | hmem
      · rw [h] at hl
        cases hl
      · obtain ⟨e', he'⟩ := ih hmem
        exact ⟨e', by rw [he']; rfl⟩

theorem parseMsg_error {text raw : List Char} {e : ValueError} (hmem : raw ∈ splitlines text)
    (h : parseLine package name raw = .error e) : ∃ e', parseMsg text package name = .error e' := by
  obtain ⟨e', he'⟩ := parseLines_error hmem h
  exact ⟨e', by rw [parseMsg, he']; rfl⟩

/-- Texts whose lines differ in an empty one at the end are read alike. -/
theorem parseMsg_of_lines {text : List Char} {ls : List (List Char)}
    (h : ls = splitlines text ∨ ls = splitlines text ++ [[]]) :
    parseMsg text package name = (parseLines package name ls).map fun members => ⟨package, name, members⟩ := by
  rcases h with rfl | rfl
  · rfl
  · rw [parseLines_snoc_nil]
    rfl

end Loop

end Rcllite.Interface
