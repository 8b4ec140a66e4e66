import Mathlib.Data.List.Dedup
import Mathlib.Data.List.Sort

/-! Lists in the order of a key. What an ordered container yields when it is
iterated depends on its elements only, not on how they got there. -/
namespace SortBy
variable {α κ : Type} [LE κ] [DecidableLE κ]

def sortBy (key : α → κ) (l : List α) : List α := l.insertionSort (fun a b => key a ≤ key b)

/-- The elements of a set that was filled with `l`. -/
def toSet [DecidableEq α] (key : α → κ) (l : List α) : List α := sortBy key l.dedup

@[simp] theorem mem_sortBy {key : α → κ} {l : List α} {a : α} : a ∈ sortBy key l ↔ a ∈ l :=
  List.mem_insertionSort _

theorem sortBy_perm (key : α → κ) (l : List α) : (sortBy key l).Perm l := List.perm_insertionSort _ l

@[simp] theorem mem_toSet [DecidableEq α] {key : α → κ} {l : List α} {a : α} : a ∈ toSet key l ↔ a ∈ l :=
  mem_sortBy.trans List.mem_dedup

theorem nodup_toSet [DecidableEq α] (key : α → κ) (l : List α) : (toSet key l).Nodup :=
  (sortBy_perm key _).nodup_iff.mpr l.nodup_dedup

variable [Std.IsLinearOrder κ]

theorem sortBy_pairwise (key : α → κ) (l : List α) :
    (sortBy key l).Pairwise (fun a b => key a ≤ key b) := by
  have htotal : Std.Total (fun a b : α => key a ≤ key b) := ⟨fun a b => Std.le_total⟩
  have htrans : IsTrans α (fun a b => key a ≤ key b) := ⟨fun a b c => Std.le_trans⟩
  exact List.pairwise_insertionSort _ l

omit [DecidableLE κ] in
/-- In a list in order, the last element with a property is the greatest one. -/
theorem find?_reverse_eq_some_iff {key : α → κ} {l : List α} {p : α → Bool} {a : α}
    (hinj : ∀ a ∈ l, ∀ b ∈ l, key a = key b → a = b) (hsorted : l.Pairwise (fun a b => key a ≤ key b)) :
    l.reverse.find? p = some a ↔ a ∈ l ∧ p a = true ∧ ∀ b ∈ l, p b = true → key b ≤ key a := by
  have hgreatest : ∀ a, l.reverse.find? p = some a → a ∈ l ∧ p a = true ∧ ∀ b ∈ l, p b = true → key b ≤ key a := by
    intro a ha
    obtain ⟨hpa, before, behind, hsplit, hbefore⟩ := List.find?_eq_some_iff_append.mp ha
    have hrev : (before ++ a :: behind).Pairwise (fun a b => key b ≤ key a) := by
      rw [← hsplit]
      exact List.pairwise_reverse.mpr hsorted
    have hmem : ∀ b, b ∈ l ↔ b ∈ before ∨ b = a ∨ b ∈ behind := by
      intro b
      rw [← List.mem_reverse, hsplit, List.mem_append, List.mem_cons]
    refine ⟨(hmem a).mpr (Or.inr (Or.inl rfl)), hpa, fun b hb hpb => ?_⟩
    rcases (hmem b).mp hb with hb | rfl | hb
    · have hnot := hbefore b hb
      rw [hpb] at hnot
      cases hnot
    · exact Std.le_refl _
    · exact List.rel_of_pairwise_cons (List.pairwise_append.mp hrev).2.1 hb
  refine ⟨hgreatest a, ?_⟩
  rintro ⟨hmem, hpa, hbest⟩
  cases hfind : l.reverse.find? p with
  | none => exact absurd hpa (List.find?_eq_none.mp hfind a (List.mem_reverse.mpr hmem))
  | some b =>
    obtain ⟨hb, hpb, hbest'⟩ := hgreatest b hfind
    exact congrArg some (hinj b hb a hmem (Std.le_antisymm (hbest b hb hpb) (hbest' a hmem hpa)))

/-- A list in order with the same elements is the sorted list. -/
theorem eq_sortBy {key : α → κ} {l l' : List α}
    (hinj : ∀ a ∈ l, ∀ b ∈ l, key a = key b → a = b) (hperm : l'.Perm l)
    (hsorted : l'.Pairwise (fun a b => key a ≤ key b)) : l' = sortBy key l := by
  have hall : l'.Perm (sortBy key l) := by
    calc
      l'.Perm l := hperm
      List.Perm _ (sortBy key l) := (sortBy_perm key l).symm
  refine hall.eq_of_pairwise ?_ hsorted (sortBy_pairwise key l)
  intro a b ha hb hab hba
  exact hinj a (hperm.mem_iff.mp ha) b (mem_sortBy.mp hb) (Std.le_antisymm hab hba)

/-- The order in which the elements were listed does not matter. -/
theorem sortBy_congr {key : α → κ} {l l' : List α}
    (hinj : ∀ a ∈ l', ∀ b ∈ l', key a = key b → a = b) (hperm : l.Perm l') :
    sortBy key l = sortBy key l' :=
  eq_sortBy hinj ((sortBy_perm key l).trans hperm) (sortBy_pairwise key l)

end SortBy
