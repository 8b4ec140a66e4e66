import Mathlib.Data.List.Infix
import Mathlib.Data.List.TakeWhile
import Mathlib.Tactic.Common

/-! Lists cut at a separator: the first and the last position of an element, and lists that are tokens
with the separator before each. -/
namespace Tokens
variable {α : Type}

section Positions
variable [DecidableEq α]

/-- The first position of `c`. -/
def find (c : α) : List α → Option ℕ
  | [] => none
  | x :: l => if x = c then some 0 else (find c l).map (· + 1)

/-- The last position of `c`. -/
def rfind (c : α) : List α → Option ℕ
  | [] => none
  | x :: l => match rfind c l with
    | some i => some (i + 1)
    | none => if x = c then some 0 else none

theorem find_none {c : α} {l : List α} (h : c ∉ l) : find c l = none := by
  induction l with
  | nil => rfl
  | cons x l ih =>
    rw [List.mem_cons, not_or] at h
    rw [find, if_neg (Ne.symm h.1), ih h.2, Option.map_none]

theorem rfind_none {c : α} {l : List α} (h : c ∉ l) : rfind c l = none := by
  induction l with
  | nil => rfl
  | cons x l ih =>
    rw [List.mem_cons, not_or] at h
    rw [rfind, ih h.2]
    exact if_neg (Ne.symm h.1)

theorem find_append {c : α} {l : List α} (h : c ∉ l) (r : List α) : find c (l ++ c :: r) = some l.length := by
  induction l with
  | nil => exact if_pos rfl
  | cons x l ih =>
    rw [List.mem_cons, not_or] at h
    rw [List.cons_append, find, if_neg (Ne.symm h.1), ih h.2, Option.map_some, List.length_cons]

theorem rfind_append {c : α} (l : List α) {r : List α} (h : c ∉ r) : rfind c (l ++ c :: r) = some l.length := by
  induction l with
  | nil =>
    rw [List.nil_append, rfind, rfind_none h]
    exact if_pos rfl
  | cons x l ih => rw [List.cons_append, rfind, ih, List.length_cons]

omit [DecidableEq α] in
/-- A list that has `c` is cut at its last occurrence. -/
theorem exists_last {c : α} {l : List α} (h : c ∈ l) : ∃ a b, c ∉ b ∧ l = a ++ c :: b := by
  obtain ⟨a, b, hl, hb⟩ := List.eq_append_cons_of_mem (List.mem_reverse.mpr h)
  refine ⟨b.reverse, a.reverse, fun hmem => hb (List.mem_reverse.mp hmem), ?_⟩
  rw [← List.reverse_reverse l, hl, List.reverse_append, List.reverse_cons, List.append_assoc,
    List.singleton_append]

end Positions

/-- The tokens with `sep` before each. -/
def join (sep : α) (tokens : List (List α)) : List α := tokens.flatMap (List.cons sep)

/-- A list that starts with the separator, does not end in it and never has two of them in a row. -/
structure Separated (sep : α) (l : List α) : Prop where
  head : l.head? = some sep
  last : l.getLast? ≠ some sep
  adjacent : ¬ [sep, sep] <:+: l

section Join
variable {sep : α}

theorem join_cons (t : List α) (tokens : List (List α)) : join sep (t :: tokens) = sep :: (t ++ join sep tokens) :=
  List.flatMap_cons

theorem join_snoc (tokens : List (List α)) (t : List α) : join sep (tokens ++ [t]) = join sep tokens ++ sep :: t := by
  rw [join, List.flatMap_append, List.flatMap_singleton, join]

theorem infix_pair_of_append {t l : List α} (h : sep ∉ t) (hpair : [sep, sep] <:+: t ++ l) :
    [sep, sep] <:+: l := by
  induction t with
  | nil => exact hpair
  | cons c t ih =>
    rw [List.mem_cons, not_or] at h
    rw [List.cons_append, List.infix_cons_iff] at hpair
    rcases hpair with hstart | hpair
    · exact absurd (List.cons_prefix_cons.mp hstart).1 h.1
    · exact ih h.2 hpair

/-- Tokens that are not empty and free of the separator give a separated list. -/
theorem separated_join {tokens : List (List α)} (hne : tokens ≠ []) (h : ∀ t ∈ tokens, t ≠ [] ∧ sep ∉ t) :
    Separated sep (join sep tokens) := by
  induction tokens with
  | nil => exact absurd rfl hne
  | cons t tokens ih =>
    obtain ⟨htne, htsep⟩ := h t List.mem_cons_self
    have hrest := fun u hu => h u (List.mem_cons_of_mem t hu)
    -- no pair spans the token, which has at least one element
    have hspan : [sep, sep] <:+: join sep (t :: tokens) → [sep, sep] <:+: join sep tokens := by
      intro hpair
      obtain ⟨c, t, rfl⟩ := List.exists_cons_of_ne_nil htne
      rw [join_cons, List.infix_cons_iff] at hpair
      rcases hpair with hstart | hpair
      · have heq := (List.cons_prefix_cons.mp (List.cons_prefix_cons.mp hstart).2).1
        exact absurd (heq ▸ List.mem_cons_self) htsep
      · exact infix_pair_of_append htsep hpair
    by_cases hnil : tokens = []
    · subst hnil
      refine ⟨rfl, ?_, fun hpair => by simpa [join] using hspan hpair⟩
      intro hlast
      have hmem : (join sep [t]).getLast? = t.getLast? := by
        rw [join, List.flatMap_singleton, List.getLast?_cons, List.getLast?_eq_some_getLast htne]
        rfl
      exact htsep (List.mem_of_getLast? (hmem ▸ hlast))
    · have ih := ih hnil hrest
      refine ⟨rfl, ?_, fun hpair => ih.adjacent (hspan hpair)⟩
      have hjoin : join sep tokens ≠ [] := by
        intro hempty
        have hhead := ih.head
        rw [hempty] at hhead
        cases hhead
      rw [join_cons, ← List.cons_append, List.getLast?_append_of_ne_nil _ hjoin]
      exact ih.last

/-- A separated list is made of such tokens. -/
theorem Separated.exists_tokens {l : List α} (h : Separated sep l) :
    ∃ tokens, tokens ≠ [] ∧ (∀ t ∈ tokens, t ≠ [] ∧ sep ∉ t) ∧ l = join sep tokens := by
  induction hn : l.length using Nat.strong_induction_on generalizing l with
  | _ n ih =>
    obtain ⟨rest, rfl⟩ := List.head?_eq_some_iff.mp h.head
    have hrest : rest ≠ [] := by
      rintro rfl
      exact h.last rfl
    by_cases hmem : sep ∈ rest
    · -- the first token, and a shorter list of the same kind
      obtain ⟨t, tail, rfl, ht⟩ := List.eq_append_cons_of_mem hmem
      have htne : t ≠ [] := by
        rintro rfl
        exact h.adjacent ⟨[], tail, rfl⟩
      have htail : Separated sep (sep :: tail) := by
        refine ⟨rfl, ?_, fun hpair => h.adjacent (hpair.trans ⟨sep :: t, [], by simp⟩)⟩
        have hlast := h.last
        rwa [← List.cons_append, List.getLast?_append_of_ne_nil _ (List.cons_ne_nil _ _)] at hlast
      have hshort : (sep :: tail).length < n := by
        simp only [← hn, List.length_cons, List.length_append]
        omega
      obtain ⟨tokens, hne, hall, heq⟩ := ih _ hshort htail rfl
      refine ⟨t :: tokens, List.cons_ne_nil _ _, ?_, by rw [join_cons, ← heq]⟩
      intro u hu
      rcases List.mem_cons.mp hu with rfl | hu
      · exact ⟨htne, ht⟩
      · exact hall u hu
    · refine ⟨[rest], List.cons_ne_nil _ _, ?_, by rw [join, List.flatMap_singleton]⟩
      intro u hu
      obtain rfl := List.mem_singleton.mp hu
      exact ⟨hrest, hmem⟩

theorem Separated.snoc {l t : List α} (h : Separated sep l) (hne : t ≠ []) (hsep : sep ∉ t) :
    Separated sep (l ++ sep :: t) := by
  obtain ⟨tokens, -, hall, rfl⟩ := h.exists_tokens
  rw [← join_snoc]
  refine separated_join (List.append_ne_nil_of_right_ne_nil _ (List.cons_ne_nil _ _)) ?_
  intro u hu
  rcases List.mem_append.mp hu with hu | hu
  · exact hall u hu
  · obtain rfl := List.mem_singleton.mp hu
    exact ⟨hne, hsep⟩

theorem mem_join {tokens : List (List α)} {c : α} (h : c ∈ join sep tokens) : c = sep ∨ ∃ t ∈ tokens, c ∈ t := by
  obtain ⟨t, ht, hc⟩ := List.mem_flatMap.mp h
  rcases List.mem_cons.mp hc with rfl | hc
  · exact .inl rfl
  · exact .inr ⟨t, ht, hc⟩

end Join

end Tokens
