import Mathlib.Data.List.Basic
import Mathlib.Tactic.Common

/-! Labelled transition systems. Threads are interleaved by letting any of
their steps come next, so "for every interleaving" is "for every reachable
state". -/
namespace Transition

structure System (σ α : Type) where
  init : σ → Prop
  step : σ → α → σ → Prop

namespace System
variable {σ α : Type}

inductive Reachable (S : System σ α) : σ → Prop
  | init {s : σ} (h : S.init s) : Reachable S s
  | step {s s' : σ} {a : α} (h : Reachable S s) (hs : S.step s a s') : Reachable S s'

/-- The runs all of whose steps meet a condition on the state before. -/
def restrict (S : System σ α) (P : σ → α → Prop) : System σ α where
  init := S.init
  step s a s' := P s a ∧ S.step s a s'

/-- The invariant rule. The step may use that its source is reachable. -/
theorem Reachable.invariant {S : System σ α} (I : σ → Prop) (hinit : ∀ s, S.init s → I s)
    (hstep : ∀ s a s', S.Reachable s → I s → S.step s a s' → I s') {s : σ}
    (h : S.Reachable s) : I s := by
  induction h with
  | init h => exact hinit _ h
  | step h hs ih => exact hstep _ _ _ h ih hs

theorem Reachable.step_restrict {S : System σ α} {P : σ → α → Prop} {s s' : σ} {a : α}
    (h : (S.restrict P).Reachable s) (hs : S.step s a s') (hp : P s a) : (S.restrict P).Reachable s' :=
  h.step ⟨hp, hs⟩

theorem Reachable.of_restrict {S : System σ α} {P : σ → α → Prop} {s : σ}
    (h : (S.restrict P).Reachable s) : S.Reachable s := by
  induction h with
  | init h => exact .init h
  | step _ hs ih => exact ih.step hs.2

/-- What is known of every reachable state may be assumed at each step. -/
theorem Reachable.invariant_with {S : System σ α} (J I : σ → Prop) (hJ : ∀ s, S.Reachable s → J s)
    (hinit : ∀ s, S.init s → I s) (hstep : ∀ s a s', J s → I s → S.step s a s' → I s') {s : σ}
    (h : S.Reachable s) : I s :=
  h.invariant I hinit (fun s a s' hr hi hs => hstep s a s' (hJ s hr) hi hs)

/-- The simulation rule: a relation that every step of one system can be followed along in the other relates
every reachable state to a reachable one. -/
theorem Reachable.simulation {τ β : Type} {S : System σ α} {T : System τ β} (R : σ → τ → Prop)
    (hinit : ∀ s, S.init s → ∃ t, T.Reachable t ∧ R s t)
    (hstep : ∀ s a s' t, T.Reachable t → R s t → S.step s a s' → ∃ t', T.Reachable t' ∧ R s' t') {s : σ}
    (h : S.Reachable s) : ∃ t, T.Reachable t ∧ R s t := by
  induction h with
  | init h => exact hinit _ h
  | step _ hs ih =>
    obtain ⟨t, ht, hR⟩ := ih
    exact hstep _ _ _ t ht hR hs

/-- The steps `as` lead from `s` to `s'`. -/
inductive Run (S : System σ α) : σ → List α → σ → Prop
  | nil {s : σ} : Run S s [] s
  | cons {s s₁ s' : σ} {a : α} {as : List α} (hs : S.step s a s₁) (hrest : Run S s₁ as s') : Run S s (a :: as) s'

theorem Run.reachable {S : System σ α} {s s' : σ} {as : List α} (h : S.Run s as s') (hr : S.Reachable s) :
    S.Reachable s' := by
  induction h with
  | nil => exact hr
  | cons hs _ ih => exact ih (hr.step hs)

theorem Run.append {S : System σ α} {s s₁ s' : σ} {as bs : List α} (h : S.Run s as s₁) (h' : S.Run s₁ bs s') :
    S.Run s (as ++ bs) s' := by
  induction h with
  | nil => exact h'
  | cons hs _ ih => exact .cons hs (ih h')

/-- What no step loses of a reachable state is kept over a run. -/
theorem Run.keeps {S : System σ α} {P : σ → Prop} (hstep : ∀ s a s', S.Reachable s → P s → S.step s a s' → P s')
    {s s' : σ} {as : List α} (h : S.Run s as s') (hr : S.Reachable s) (hP : P s) : P s' := by
  induction h with
  | nil => exact hP
  | cons hs _ ih => exact ih (hr.step hs) (hstep _ _ _ hr hP hs)

/-- A run is no longer than a measure that each of its steps makes smaller. -/
theorem Run.bounded {S : System σ α} {P : σ → Prop} (μ : σ → ℕ)
    (hstep : ∀ s a s', S.Reachable s → P s → S.step s a s' → P s' ∧ μ s' < μ s) {s s' : σ} {as : List α}
    (h : S.Run s as s') (hr : S.Reachable s) (hP : P s) : as.length + μ s' ≤ μ s := by
  induction h with
  | nil => exact Nat.le_of_eq (Nat.zero_add _)
  | cons hs _ ih =>
    obtain ⟨hP₁, hlt⟩ := hstep _ _ _ hr hP hs
    have hrest := ih (hr.step hs) hP₁
    rw [List.length_cons]
    omega

section Observing
variable {τ β γ : Type} {S : System σ α} {T : System τ γ} {view : α → Option β}

/-- `seen` are the labels of a run from the start, less those that `view` hides by sending them to `none`. -/
def Observes (S : System σ α) (view : α → Option β) (seen : List β) : Prop :=
  ∃ s as s', S.init s ∧ S.Run s as s' ∧ as.filterMap view = seen

/-- Up to the first visible step of a run there are hidden steps only. -/
theorem Run.observed_cons {s s' : σ} {as : List α} {b : β} {seen : List β} (h : S.Run s as s')
    (hseen : as.filterMap view = b :: seen) :
    ∃ hidden s₁ a s₂ rest, S.Run s hidden s₁ ∧ hidden.filterMap view = [] ∧ S.step s₁ a s₂ ∧ view a = some b ∧
      S.Run s₂ rest s' ∧ rest.filterMap view = seen := by
  induction h with
  | nil => cases hseen
  | @cons s s₁ s' a as hs hrest ih =>
    rw [List.filterMap_cons] at hseen
    cases ha : view a with
    | some b' =>
      rw [ha] at hseen
      obtain ⟨hb, hseen'⟩ := List.cons.inj hseen
      exact ⟨[], s, a, s₁, as, .nil, rfl, hs, ha.trans (congrArg some hb), hrest, hseen'⟩
    | none =>
      rw [ha] at hseen
      obtain ⟨hidden, s₂, a', s₃, rest, hrun, hhidden, hs', ha', hrun', hseen'⟩ := ih hseen
      refine ⟨a :: hidden, s₂, a', s₃, rest, .cons hs hrun, ?_, hs', ha', hrun', hseen'⟩
      rw [List.filterMap_cons, ha]
      exact hhidden

/-- Trace inclusion: a relation along which every step is followed with the same visible labels. -/
theorem Observes.simulation {view' : γ → Option β} (R : σ → τ → Prop)
    (hinit : ∀ s, S.init s → ∃ t, T.init t ∧ R s t)
    (hstep : ∀ s a s' t, R s t → S.step s a s' →
      ∃ cs t', T.Run t cs t' ∧ cs.filterMap view' = (view a).toList ∧ R s' t') {seen : List β}
    (h : S.Observes view seen) : T.Observes view' seen := by
  obtain ⟨s, as, s', hs, hrun, rfl⟩ := h
  obtain ⟨t, ht, hR⟩ := hinit s hs
  suffices hfollow : ∃ cs t', T.Run t cs t' ∧ cs.filterMap view' = as.filterMap view by
    obtain ⟨cs, t', hrun', hseen⟩ := hfollow
    exact ⟨t, cs, t', ht, hrun', hseen⟩
  clear hs ht
  induction hrun generalizing t with
  | nil => exact ⟨[], t, .nil, rfl⟩
  | @cons s s₁ s' a as hs _ ih =>
    obtain ⟨cs, t₁, hrun₁, hseen₁, hR₁⟩ := hstep s a s₁ t hR hs
    obtain ⟨ds, t', hrun', hseen'⟩ := ih t₁ hR₁
    refine ⟨cs ++ ds, t', hrun₁.append hrun', ?_⟩
    rw [List.filterMap_append, hseen₁, hseen', List.filterMap_cons]
    cases view a with
    | none => rfl
    | some b => rfl

end Observing

end System

section Calls
variable {σ τ α ρ : Type}

/-- The replies of a machine to a sequence of calls, and the state it is left in. -/
def runCalls (f : α → σ → ρ × σ) : List α → σ → List ρ × σ
  | [], s => ([], s)
  | a :: as, s => ((f a s).1 :: (runCalls f as (f a s).2).1, (runCalls f as (f a s).2).2)

theorem runCalls_append (f : α → σ → ρ × σ) (as bs : List α) (s : σ) :
    runCalls f (as ++ bs) s =
      ((runCalls f as s).1 ++ (runCalls f bs (runCalls f as s).2).1, (runCalls f bs (runCalls f as s).2).2) := by
  induction as generalizing s with
  | nil => rfl
  | cons a as ih => rw [List.cons_append, runCalls, ih, runCalls, List.cons_append]

/-- Two machines that give the same reply in related states, and stay related, give the same replies. -/
theorem runCalls_simulation {f : α → σ → ρ × σ} {g : α → τ → ρ × τ} {R : σ → τ → Prop}
    (hstep : ∀ a s t, R s t → (f a s).1 = (g a t).1 ∧ R (f a s).2 (g a t).2) (as : List α) {s : σ} {t : τ}
    (hR : R s t) : (runCalls f as s).1 = (runCalls g as t).1 ∧ R (runCalls f as s).2 (runCalls g as t).2 := by
  induction as generalizing s t with
  | nil => exact ⟨rfl, hR⟩
  | cons a as ih =>
    obtain ⟨hreply, hnext⟩ := hstep a s t hR
    obtain ⟨hreplies, hlast⟩ := ih hnext
    exact ⟨by rw [runCalls, runCalls, hreply, hreplies], hlast⟩

end Calls

/-- What one of the steps of a run establishes and none of them destroys holds at its end. -/
theorem foldl_establishes {σ α : Type} {f : σ → α → σ} {Q : σ → Prop} {l : List α} {x : α} (hx : x ∈ l)
    (hest : ∀ s, Q (f s x)) (hkeep : ∀ s, ∀ y ∈ l, Q s → Q (f s y)) (s : σ) : Q (l.foldl f s) := by
  obtain ⟨before, after, rfl⟩ := List.append_of_mem hx
  rw [List.foldl_append, List.foldl_cons]
  refine List.foldlRecOn (motive := Q) after f (hest _) ?_
  exact fun s hs y hy => hkeep s y (List.mem_append_right _ (List.mem_cons_of_mem _ hy)) hs

end Transition
