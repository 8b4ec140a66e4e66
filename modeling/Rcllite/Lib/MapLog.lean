import Rcllite.Lib.AssocMap

/-! Logs of updates to a finite map, and the map a reader of the log rebuilds
from it. -/
namespace MapLog
variable {κ α : Type} [DecidableEq κ]

/-- An entry was put, announced as new or as changed, or was removed. -/
inductive Update (κ α : Type) where
  | put (isNew : Bool) (k : κ) (v : α)
  | remove (k : κ)

def Update.apply (m : AssocMap κ α) : Update κ α → AssocMap κ α
  | .put _ k v => m.insert k v
  | .remove k => m.erase k

/-- The map that the updates build from the empty one, in order. -/
def replay (log : List (Update κ α)) : AssocMap κ α := log.foldl Update.apply .empty

/-- Every put is announced as new exactly when its key was absent just before. -/
def Honest (log : List (Update κ α)) : Prop :=
  ∀ earlier isNew k v later, log = earlier ++ .put isNew k v :: later →
    (isNew = true ↔ (replay earlier).find? k = none)

theorem replay_concat (log : List (Update κ α)) (u : Update κ α) :
    replay (log ++ [u]) = u.apply (replay log) := by
  unfold replay
  rw [List.foldl_append, List.foldl_cons, List.foldl_nil]

theorem honest_nil : Honest ([] : List (Update κ α)) := by
  intro earlier isNew k v later h
  exact absurd (congrArg List.length h) (by simp)

/-- A log stays honest when an honest put is added. -/
theorem Honest.concat {log : List (Update κ α)} (h : Honest log) {isNew : Bool} {k : κ} (v : α)
    (hnew : isNew = true ↔ (replay log).find? k = none) : Honest (log ++ [.put isNew k v]) := by
  intro earlier isNew' k' v' later heq
  rcases List.append_eq_append_iff.mp heq with ⟨mid, hear, hlast⟩ | ⟨mid, hlog, hlast⟩
  · -- the put in question is the last one
    cases mid with
    | nil =>
      cases hlast
      rw [hear, List.append_nil]
      exact hnew
    | cons u mid =>
      have := congrArg List.length hlast
      simp at this
  · cases mid with
    | nil =>
      cases hlast
      rw [List.append_nil] at hlog
      rw [← hlog]
      exact hnew
    | cons u mid =>
      rw [List.cons_append, List.cons.injEq] at hlast
      obtain ⟨rfl, -⟩ := hlast
      exact h earlier isNew' k' v' mid hlog

end MapLog
