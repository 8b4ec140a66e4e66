import Mathlib.Data.List.Count
import Mathlib.Data.List.Nodup
import Mathlib.Tactic.Common

/-! Objects that shared pointers keep alive: the strong counts of their control blocks, and the objects freed
when a count reached zero. -/
namespace SharedPtr

structure Blocks (α : Type) where
  strong : α → ℕ
  freed : List α   -- each time an object is freed

namespace Blocks
variable {α : Type} [DecidableEq α]

def new : Blocks α := ⟨fun _ => 0, []⟩

/-- `std::make_shared`, or the copy of a pointer. -/
def acquire (a : α) (b : Blocks α) : Blocks α := { b with strong := Function.update b.strong a (b.strong a + 1) }

/-- The destructor of a pointer; the last one frees the object. -/
def release (a : α) (b : Blocks α) : Blocks α :=
  ⟨Function.update b.strong a (b.strong a - 1), if b.strong a = 1 then a :: b.freed else b.freed⟩

/-- The counts are those of the pointers that there are, and what is freed has none. -/
structure Tracks (b : Blocks α) (pointers : List α) : Prop where
  strong : ∀ a, b.strong a = pointers.count a
  freed : ∀ a ∈ b.freed, a ∉ pointers
  once : b.freed.Nodup

namespace Tracks
variable {b : Blocks α} {pointers : List α}

theorem new : Tracks (new : Blocks α) [] where
  strong _ := rfl
  freed _ h := absurd h List.not_mem_nil
  once := List.nodup_nil

/-- The pointers in another order. -/
theorem perm (h : b.Tracks pointers) {pointers' : List α} (hp : pointers.Perm pointers') : b.Tracks pointers' where
  strong a := (h.strong a).trans (hp.count_eq a)
  freed a ha hmem := h.freed a ha (hp.mem_iff.mpr hmem)
  once := h.once

theorem acquire (h : b.Tracks pointers) {a : α} (ha : a ∉ b.freed) : (b.acquire a).Tracks (a :: pointers) where
  strong c := by
    change Function.update b.strong a (b.strong a + 1) c = _
    by_cases hc : c = a
    · subst hc
      rw [Function.update_self, List.count_cons_self, h.strong]
    · rw [Function.update_of_ne hc, List.count_cons_of_ne (Ne.symm hc), h.strong]
  freed c hc hmem := by
    rcases List.mem_cons.mp hmem with rfl | hmem
    · exact ha hc
    · exact h.freed c hc hmem
  once := h.once

theorem copy (h : b.Tracks pointers) {a : α} (ha : a ∈ pointers) : (b.acquire a).Tracks (a :: pointers) :=
  h.acquire (fun hf => h.freed a hf ha)

theorem release {a : α} (h : b.Tracks (a :: pointers)) : (b.release a).Tracks pointers := by
  have hcount := h.strong a
  rw [List.count_cons_self] at hcount
  have hstill : ∀ c ∈ b.freed, c ∉ pointers := fun c hc hmem => h.freed c hc (List.mem_cons_of_mem a hmem)
  refine ⟨fun c => ?_, fun c hc => ?_, ?_⟩
  · change Function.update b.strong a (b.strong a - 1) c = _
    by_cases hca : c = a
    · subst hca
      rw [Function.update_self, hcount, Nat.add_sub_cancel]
    · rw [Function.update_of_ne hca, h.strong, List.count_cons_of_ne (Ne.symm hca)]
  · unfold Blocks.release at hc
    dsimp only at hc
    split_ifs at hc with hlast
    · rcases List.mem_cons.mp hc with rfl | hc
      · exact List.count_eq_zero.mp (by omega)
      · exact hstill c hc
    · exact hstill c hc
  · unfold Blocks.release
    dsimp only
    split_ifs with hlast
    · exact List.nodup_cons.mpr ⟨fun hf => h.freed a hf List.mem_cons_self, h.once⟩
    · exact h.once

/-- What is released for the last time is freed. -/
theorem mem_release {a : α} (h : b.Tracks (a :: pointers)) {c : α} :
    c ∈ (b.release a).freed ↔ c ∈ b.freed ∨ c = a ∧ a ∉ pointers := by
  have hcount := h.strong a
  rw [List.count_cons_self] at hcount
  unfold Blocks.release
  dsimp only
  split_ifs with hlast
  · have hnone : a ∉ pointers := List.count_eq_zero.mp (by omega)
    rw [List.mem_cons, or_comm]
    simp [hnone]
  · have hsome : a ∈ pointers := List.count_pos_iff.mp (by omega)
    simp [hsome]

end Tracks

end Blocks

end SharedPtr
