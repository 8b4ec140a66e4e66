import Rcllite.ParameterServices

/-! `list_parameters`. A request asks for the names below any of its prefixes;
the loop stops at the first prefix that a name extends, whether or not the name
is within the depth of that one. -/
namespace Rcllite

/-- The number of tokens of `name` below `pre`. -/
def tokensBelow (name pre : List UInt8) : ℕ := (tokenize name).length - (tokenize pre).length

/-- The tokens of `pre` are the first tokens of `name`. -/
def ExtendsPrefix (name pre : List UInt8) : Prop := tokenize pre <+: tokenize name

instance (name pre : List UInt8) : Decidable (ExtendsPrefix name pre) :=
  inferInstanceAs (Decidable (tokenize pre <+: tokenize name))

/-- What a request asks for. -/
def AskedFor (prefixes : List (List UInt8)) (depth : BitVec 64) (name : List UInt8) : Prop :=
  (prefixes = [] ∧ (depth = 0 ∨ (tokenize name).length ≤ depth.toNat)) ∨
    ∃ p ∈ prefixes, ExtendsPrefix name p ∧ (depth = 0 ∨ tokensBelow name p ≤ depth.toNat)

/-- The answer is the sorted, duplicate-free list of the wanted names that are declared,
and the same for every order of the requested prefixes. -/
def ListsWanted (core : ParameterCore) (prefixes : List (List UInt8)) (depth : BitVec 64) : Prop :=
  (core.handleList prefixes depth).names.Pairwise (· < ·) ∧
  (∀ name, name ∈ (core.handleList prefixes depth).names ↔
    core.values.find? name ≠ none ∧ AskedFor prefixes depth name) ∧
  ∀ order, order.Perm prefixes → (core.handleList order depth).names = (core.handleList prefixes depth).names

/-- No declared name is within the depth of one requested prefix that it extends and beyond that of
another. -/
def DepthsAgree (core : ParameterCore) (prefixes : List (List UInt8)) (depth : BitVec 64) : Prop :=
  ∀ name, core.values.find? name ≠ none → ∀ p ∈ prefixes, ∀ q ∈ prefixes, ExtendsPrefix name p →
    ExtendsPrefix name q → (depth = 0 ∨ tokensBelow name p ≤ depth.toNat) →
    (depth = 0 ∨ tokensBelow name q ≤ depth.toNat)

@[simp] theorem withinDepth_iff (depth : BitVec 64) (count : ℕ) :
    withinDepth depth count = true ↔ depth = 0 ∨ count ≤ depth.toNat := by
  simp [withinDepth]

/-- `parts.size() < pp.size()` and `std::equal` together. -/
theorem extendsPrefix_iff (name pre : List UInt8) : ExtendsPrefix name pre ↔
    ¬ (tokenize name).length < (tokenize pre).length ∧
      tokenize pre = (tokenize name).take (tokenize pre).length := by
  unfold ExtendsPrefix
  rw [List.prefix_iff_eq_take]
  constructor
  · intro h
    refine ⟨?_, h⟩
    have hlen := congrArg List.length h
    rw [List.length_take] at hlen
    omega
  · exact fun h => h.2

/-- The loop finds the first prefix that the name extends. -/
theorem matchPrefix_eq (depth : BitVec 64) (name : List UInt8) (prefixes : List (List UInt8)) :
    matchPrefix depth (tokenize name) prefixes =
      match prefixes.find? (fun p => ExtendsPrefix name p) with
      | some p => withinDepth depth (tokensBelow name p)
      | none => false := by
  induction prefixes with
  | nil => rfl
  | cons p rest ih =>
    rw [List.find?_cons]
    unfold matchPrefix
    dsimp only
    by_cases hp : ExtendsPrefix name p
    · obtain ⟨hlen, htake⟩ := (extendsPrefix_iff name p).mp hp
      rw [if_neg hlen, if_pos htake, decide_eq_true hp]
      rfl
    · rw [decide_eq_false hp]
      dsimp only
      rw [← ih]
      split_ifs with hlen htake
      · rfl
      · exact absurd ((extendsPrefix_iff name p).mpr ⟨hlen, htake⟩) hp
      · rfl

/-- What decides whether a declared name is listed. -/
theorem listed_iff (prefixes : List (List UInt8)) (depth : BitVec 64) (name : List UInt8) :
    listed prefixes depth name = true ↔
      (prefixes = [] ∧ (depth = 0 ∨ (tokenize name).length ≤ depth.toNat)) ∨
      ∃ p, prefixes.find? (fun p => ExtendsPrefix name p) = some p ∧
        (depth = 0 ∨ tokensBelow name p ≤ depth.toNat) := by
  unfold listed
  dsimp only
  by_cases hnil : prefixes = []
  · simp [hnil]
  · rw [if_pos hnil, matchPrefix_eq]
    cases hfind : prefixes.find? (fun p => ExtendsPrefix name p) with
    | none => simp [hnil]
    | some p => simp [hnil]

/-- The first prefix found is requested and extended. -/
theorem find_extends {prefixes : List (List UInt8)} {name p : List UInt8}
    (h : prefixes.find? (fun p => ExtendsPrefix name p) = some p) : p ∈ prefixes ∧ ExtendsPrefix name p :=
  ⟨List.mem_of_find?_eq_some h, by simpa using List.find?_some h⟩

/-- Where the depths agree, the first prefix decides as any other would. -/
theorem listed_iff_wanted {core : ParameterCore} {prefixes : List (List UInt8)} {depth : BitVec 64}
    (hagree : DepthsAgree core prefixes depth) {name : List UInt8} (hdecl : core.values.find? name ≠ none) :
    listed prefixes depth name = true ↔ AskedFor prefixes depth name := by
  rw [listed_iff, AskedFor]
  refine or_congr_right ?_
  constructor
  · rintro ⟨p, hfind, hdepth⟩
    obtain ⟨hp, hext⟩ := find_extends hfind
    exact ⟨p, hp, hext, hdepth⟩
  · rintro ⟨p, hp, hext, hdepth⟩
    have hsome : (prefixes.find? (fun p => ExtendsPrefix name p)).isSome := by
      rw [List.find?_isSome]
      exact ⟨p, hp, decide_eq_true hext⟩
    obtain ⟨q, hfind⟩ := Option.isSome_iff_exists.mp hsome
    obtain ⟨hq, hextq⟩ := find_extends hfind
    exact ⟨q, hfind, hagree name hdecl p hp q hq hext hextq hdepth⟩

namespace ParameterCore

theorem mem_handleList (core : ParameterCore) (prefixes : List (List UInt8)) (depth : BitVec 64)
    (name : List UInt8) : name ∈ (core.handleList prefixes depth).names ↔
      core.values.find? name ≠ none ∧ listed prefixes depth name = true := by
  unfold handleList
  rw [SortBy.mem_sortBy, List.mem_filter]
  refine and_congr_left' ?_
  rw [Option.ne_none_iff_exists', List.mem_map]
  constructor
  · rintro ⟨e, he, rfl⟩
    exact ⟨e.2, (AssocMap.find?_eq_some_iff _ _ _).mpr he⟩
  · rintro ⟨v, hv⟩
    exact ⟨(name, v), (AssocMap.find?_eq_some_iff _ _ _).mp hv, rfl⟩

/-- The names come out sorted, each of them once. -/
theorem handleList_sorted (core : ParameterCore) (prefixes : List (List UInt8)) (depth : BitVec 64) :
    (core.handleList prefixes depth).names.Pairwise (· < ·) := by
  have hle := SortBy.sortBy_pairwise id ((core.values.entries.map Prod.fst).filter (listed prefixes depth))
  have hnodup : (core.handleList prefixes depth).names.Nodup :=
    (SortBy.sortBy_perm id _).nodup_iff.mpr (core.values.nodup.filter _)
  refine (hle.and hnodup).imp ?_
  rintro a b ⟨hab, hne⟩
  exact Std.lt_of_le_of_ne hab hne

/-- Two requests list the same when they select the same declared names. -/
theorem handleList_congr (core : ParameterCore) {prefixes prefixes' : List (List UInt8)} {depth : BitVec 64}
    (h : ∀ name, core.values.find? name ≠ none → (listed prefixes depth name = listed prefixes' depth name)) :
    (core.handleList prefixes depth).names = (core.handleList prefixes' depth).names := by
  have hfilter : (core.values.entries.map Prod.fst).filter (listed prefixes depth) =
      (core.values.entries.map Prod.fst).filter (listed prefixes' depth) := by
    apply List.filter_congr
    intro name hname
    obtain ⟨e, he, rfl⟩ := List.mem_map.mp hname
    apply h
    rw [(AssocMap.find?_eq_some_iff _ _ e.2).mpr he]
    exact Option.some_ne_none _
  unfold handleList
  dsimp only
  rw [hfilter]

end ParameterCore

theorem AskedFor.perm {order prefixes : List (List UInt8)} (h : order.Perm prefixes) (depth : BitVec 64)
    (name : List UInt8) : AskedFor order depth name ↔ AskedFor prefixes depth name := by
  have hnil : order = [] ↔ prefixes = [] := by
    rw [← List.length_eq_zero_iff, ← List.length_eq_zero_iff, h.length_eq]
  simp only [AskedFor, hnil, h.mem_iff]

/-- The listing is what was asked for, whatever the order of the prefixes, exactly when no declared name
is within the depth of one of them and beyond that of another. -/
theorem list_parameters_wanted_iff (core : ParameterCore) (prefixes : List (List UInt8)) (depth : BitVec 64) :
    ListsWanted core prefixes depth ↔ DepthsAgree core prefixes depth := by
  constructor
  · rintro ⟨-, hwanted, horder⟩ name hdecl p hp q hq hextp hextq hdepth
    have hmem : name ∈ (core.handleList prefixes depth).names :=
      (hwanted name).mpr ⟨hdecl, Or.inr ⟨p, hp, hextp, hdepth⟩⟩
    -- with `q` asked for first, `q` decides
    have hperm : (q :: prefixes.erase q).Perm prefixes := (List.perm_cons_erase hq).symm
    rw [← horder _ hperm, core.mem_handleList, listed_iff] at hmem
    rcases hmem.2 with ⟨hnil, -⟩ | ⟨q', hfind, hq'⟩
    · cases hnil
    · rw [List.find?_cons, decide_eq_true hextq] at hfind
      cases hfind
      exact hq'
  · intro hagree
    refine ⟨core.handleList_sorted prefixes depth, ?_, ?_⟩
    · intro name
      rw [core.mem_handleList]
      exact and_congr_right fun hdecl => listed_iff_wanted hagree hdecl
    · intro order hperm
      have hagree' : DepthsAgree core order depth := fun name hdecl p hp q hq =>
        hagree name hdecl p (hperm.mem_iff.mp hp) q (hperm.mem_iff.mp hq)
      apply core.handleList_congr
      intro name hdecl
      rw [Bool.eq_iff_iff, listed_iff_wanted hagree' hdecl, listed_iff_wanted hagree hdecl, AskedFor.perm hperm]

/-- The parameter `a.b.c`. -/
def oneNested : ParameterCore where
  node := text "/n"
  values := AssocMap.empty.insert (text "a.b.c") (toValue 0)
  events := []

/-- One level below `a` or `a.b`: asked for in this order nothing is found, the other way round `a.b.c`
is. -/
theorem overlapping_prefixes_order_sensitive : ¬ ListsWanted oneNested [text "a", text "a.b"] 1 ∧
    AskedFor [text "a", text "a.b"] 1 (text "a.b.c") ∧
    (oneNested.handleList [text "a", text "a.b"] 1).names = [] ∧
    (oneNested.handleList [text "a.b", text "a"] 1).names = [text "a.b.c"] := by
  have hab : (oneNested.handleList [text "a", text "a.b"] 1).names = [] := by decide +kernel
  have hba : (oneNested.handleList [text "a.b", text "a"] 1).names = [text "a.b.c"] := by decide +kernel
  refine ⟨?_, ?_, hab, hba⟩
  · rintro ⟨-, -, horder⟩
    have hsame := horder [text "a.b", text "a"] (List.Perm.swap _ _ _)
    rw [hab, hba] at hsame
    cases hsame
  · exact Or.inr ⟨text "a.b", by decide +kernel, by decide +kernel, Or.inr (by decide +kernel)⟩

end Rcllite
