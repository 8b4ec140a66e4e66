import Mathlib.Data.List.Forall2
import Mathlib.Tactic.Common

/-! Programs that check their input step by step. A step that fails is reported either by the program itself
or by a library it calls, and the first one decides which exception is seen. -/
namespace Checks

inductive Check where
  | own (ok : Bool)
  | foreign (ok : Bool)
deriving DecidableEq, Repr

inductive Reporter where
  | own
  | foreign
deriving DecidableEq, Repr

/-- Who reports the first check that fails. -/
def firstFault : List Check → Option Reporter
  | [] => none
  | .own true :: cs | .foreign true :: cs => firstFault cs
  | .own false :: _ => some .own
  | .foreign false :: _ => some .foreign

/-- Every fault the library would report stands behind one the program reports itself. -/
def Guarded (cs : List Check) : Prop := ∀ before after, cs = before ++ .foreign false :: after → .own false ∈ before

theorem firstFault_append (cs ds : List Check) : firstFault (cs ++ ds) = (firstFault cs).or (firstFault ds) := by
  induction cs with
  | nil => rfl
  | cons c cs ih =>
    rcases c with (_ | _) | (_ | _)
    · rfl
    · exact ih
    · rfl
    · exact ih

theorem guarded_cons {c : Check} {cs : List Check} :
    Guarded (c :: cs) ↔ c ≠ .foreign false ∧ (c = .own false ∨ Guarded cs) := by
  constructor
  · intro h
    refine ⟨fun hc => ?_, ?_⟩
    · have hmem := h [] cs (by rw [hc]; rfl)
      cases hmem
    · by_cases hc : c = .own false
      · exact .inl hc
      · right
        intro before after hcs
        rcases List.mem_cons.mp (h (c :: before) after (by rw [hcs]; rfl)) with hmem | hmem
        · exact absurd hmem.symm hc
        · exact hmem
  · rintro ⟨hc, hcs⟩ before after heq
    cases before with
    | nil => exact absurd (List.cons.inj heq).1 hc
    | cons b before =>
      obtain ⟨rfl, hrest⟩ := List.cons.inj heq
      rcases hcs with rfl | hcs
      · exact List.mem_cons_self
      · exact List.mem_cons_of_mem _ (hcs before after hrest)

theorem guarded_iff {cs : List Check} : Guarded cs ↔ firstFault cs ≠ some .foreign := by
  induction cs with
  | nil =>
    refine iff_of_true ?_ (fun h => by cases h)
    intro before after h
    cases before with
    | nil => cases h
    | cons b before => cases h
  | cons c cs ih =>
    rw [guarded_cons, ih]
    rcases c with (_ | _) | (_ | _)
    · simp [firstFault]
    · simp [firstFault]
    · simp [firstFault]
    · simp [firstFault]

theorem bind_eq_ok {ε α β : Type} {x : Except ε α} {f : α → Except ε β} {b : β} :
    x >>= f = .ok b ↔ ∃ a, x = .ok a ∧ f a = .ok b := by
  cases x with
  | error e =>
    constructor
    · intro h
      cases h
    · rintro ⟨_, h, -⟩
      cases h
  | ok a =>
    constructor
    · exact fun h => ⟨a, rfl, h⟩
    · rintro ⟨_, h, hf⟩
      cases h
      exact hf

section Reports
variable {ε α β : Type} {isOwn : ε → Prop}

/-- The outcome is the one the checks lead to. -/
def Reports (isOwn : ε → Prop) (cs : List Check) : Except ε α → Prop
  | .ok _ => firstFault cs = none
  | .error e => (isOwn e ∧ firstFault cs = some .own) ∨ (¬ isOwn e ∧ firstFault cs = some .foreign)

theorem Reports.append_right {cs ds : List Check} {e : ε} (h : Reports isOwn cs (.error e : Except ε α)) :
    Reports isOwn (cs ++ ds) (.error e : Except ε β) := by
  change (isOwn e ∧ firstFault (cs ++ ds) = some .own) ∨ (¬ isOwn e ∧ firstFault (cs ++ ds) = some .foreign)
  rw [firstFault_append]
  rcases h with ⟨he, hfault⟩ | ⟨he, hfault⟩
  · exact .inl ⟨he, by rw [hfault]; rfl⟩
  · exact .inr ⟨he, by rw [hfault]; rfl⟩

theorem Reports.append_left {cs ds : List Check} (h : firstFault cs = none) {x : Except ε α}
    (hx : Reports isOwn ds x) : Reports isOwn (cs ++ ds) x := by
  have hds : firstFault (cs ++ ds) = firstFault ds := by rw [firstFault_append, h, Option.none_or]
  cases x with
  | ok a => exact hds.trans hx
  | error e =>
    change (isOwn e ∧ firstFault (cs ++ ds) = some .own) ∨ (¬ isOwn e ∧ firstFault (cs ++ ds) = some .foreign)
    rw [hds]
    exact hx

theorem Reports.cons_true {ds : List Check} {x : Except ε α} (hx : Reports isOwn ds x) :
    Reports isOwn (.own true :: ds) x := by
  have hnone : firstFault [.own true] = none := rfl
  exact hx.append_left hnone

/-- Checks of steps taken one after the other are listed one after the other. -/
theorem Reports.bind {x : Except ε α} {f : α → Except ε β} {cs ds : List Check} (hx : Reports isOwn cs x)
    (hf : ∀ a, x = .ok a → Reports isOwn ds (f a)) : Reports isOwn (cs ++ ds) (x >>= f) := by
  cases x with
  | ok a => exact (hf a rfl).append_left hx
  | error e => exact hx.append_right

theorem Reports.bind_cons {x : Except ε α} {f : α → Except ε β} {c : Check} {ds : List Check}
    (hx : Reports isOwn [c] x) (hf : ∀ a, x = .ok a → Reports isOwn ds (f a)) : Reports isOwn (c :: ds) (x >>= f) :=
  Reports.bind hx hf

theorem Reports.bind_last {x : Except ε α} {f : α → Except ε β} {cs : List Check} (hx : Reports isOwn cs x)
    (hf : ∀ a, Reports isOwn [] (f a)) : Reports isOwn cs (x >>= f) := by
  rw [← List.append_nil cs]
  exact Reports.bind hx fun a _ => hf a

/-- A condition the program tests before it goes on. -/
theorem Reports.guard {x : Except ε α} {e : ε} (he : isOwn e) {b : Bool} {ds : List Check}
    (hx : b = true → Reports isOwn ds x) : Reports isOwn (.own b :: ds) (if b then x else .error e) := by
  cases b with
  | true => exact (hx rfl).cons_true
  | false => exact .inl ⟨he, rfl⟩

end Reports

section Follows
variable {ε σ α β : Type} {isOwn : ε → Prop} {inv : σ → Prop}

def exceptOf : EStateM.Result ε σ α → Except ε α
  | .ok a _ => .ok a
  | .error e _ => .error e

def stateOf : EStateM.Result ε σ α → σ
  | .ok _ s | .error _ s => s

/-- The run ends as the checks say, in a state of the invariant. -/
def Follows (isOwn : ε → Prop) (inv : σ → Prop) (cs : List Check) (r : EStateM.Result ε σ α) : Prop :=
  inv (stateOf r) ∧ Reports isOwn cs (exceptOf r)

def lift : Except ε α → EStateM ε σ α
  | .ok a => pure a
  | .error e => throw e

theorem follows_lift {cs : List Check} {x : Except ε α} (hx : Reports isOwn cs x) {s : σ} (h : inv s) :
    Follows isOwn inv cs (lift x s) := by
  cases x with
  | ok a => exact ⟨h, hx⟩
  | error e => exact ⟨h, hx⟩

theorem of_lift_ok {x : Except ε α} {s s' : σ} {a : α} (h : lift x s = .ok a s') : x = .ok a := by
  cases x with
  | ok b =>
    cases h
    rfl
  | error e => cases h

theorem Follows.pure {s : σ} (h : inv s) (a : α) : Follows isOwn inv [] (EStateM.Result.ok (ε := ε) a s) := ⟨h, rfl⟩

theorem bind_ok {x : EStateM ε σ α} {f : α → EStateM ε σ β} {s s' : σ} {a : α} (h : x s = .ok a s') :
    (x >>= f) s = f a s' := by
  change EStateM.bind x f s = f a s'
  rw [EStateM.bind, h]

theorem bind_error {x : EStateM ε σ α} {f : α → EStateM ε σ β} {s s' : σ} {e : ε} (h : x s = .error e s') :
    (x >>= f) s = .error e s' := by
  change EStateM.bind x f s = .error e s'
  rw [EStateM.bind, h]

theorem Follows.bind {x : EStateM ε σ α} {f : α → EStateM ε σ β} {s : σ} {cs ds : List Check}
    (hx : Follows isOwn inv cs (x s))
    (hf : ∀ a s', x s = .ok a s' → inv s' → Follows isOwn inv ds (f a s')) :
    Follows isOwn inv (cs ++ ds) ((x >>= f) s) := by
  cases hr : x s with
  | ok a s' =>
    rw [hr] at hx
    rw [bind_ok hr]
    have hrest := hf a s' hr hx.1
    exact ⟨hrest.1, hrest.2.append_left hx.2⟩
  | error e s' =>
    rw [hr] at hx
    rw [bind_error hr]
    exact ⟨hx.1, hx.2.append_right⟩

theorem Follows.bind_cons {x : EStateM ε σ α} {f : α → EStateM ε σ β} {s : σ} {c : Check} {ds : List Check}
    (hx : Follows isOwn inv [c] (x s)) (hf : ∀ a s', x s = .ok a s' → inv s' → Follows isOwn inv ds (f a s')) :
    Follows isOwn inv (c :: ds) ((x >>= f) s) :=
  Follows.bind hx hf

theorem Follows.bind_last {x : EStateM ε σ α} {f : α → EStateM ε σ β} {s : σ} {cs : List Check}
    (hx : Follows isOwn inv cs (x s)) (hf : ∀ a s', inv s' → Follows isOwn inv [] (f a s')) :
    Follows isOwn inv cs ((x >>= f) s) := by
  rw [← List.append_nil cs]
  exact Follows.bind hx fun a s' _ hs' => hf a s' hs'

/-- A step that checks nothing. -/
theorem Follows.bind_quiet {x : EStateM ε σ α} {f : α → EStateM ε σ β} {s s' : σ} {a : α} {cs : List Check}
    (hx : x s = .ok a s') (hf : Follows isOwn inv cs (f a s')) : Follows isOwn inv cs ((x >>= f) s) := by
  rw [bind_ok hx]
  exact hf

/-- A loop goes through the checks of its elements. -/
theorem follows_mapM {γ : Type} {f : γ → EStateM ε σ α} {checks : γ → List Check}
    (hf : ∀ x s, inv s → Follows isOwn inv (checks x) (f x s)) (xs : List γ) {s : σ} (h : inv s) :
    Follows isOwn inv (xs.flatMap checks) ((xs.mapM f) s) := by
  induction xs generalizing s with
  | nil => exact ⟨h, rfl⟩
  | cons x xs ih =>
    rw [List.mapM_cons, List.flatMap_cons]
    refine Follows.bind (hf x s h) fun a s' _ hs' => ?_
    rw [← List.append_nil (xs.flatMap checks)]
    exact Follows.bind (ih hs') fun as s'' _ hs'' => Follows.pure hs'' _

/-- What a run that follows its checks can raise. -/
theorem Follows.raises_own_iff {cs : List Check} {r : EStateM.Result ε σ α} (h : Follows isOwn inv cs r) :
    (∀ e s, r = .error e s → isOwn e) ↔ Guarded cs := by
  rw [guarded_iff]
  cases r with
  | ok a s =>
    have hfault : firstFault cs = none := h.2
    refine iff_of_true (fun e t h => by cases h) ?_
    rw [hfault]
    exact fun hf => by cases hf
  | error e s =>
    rcases h.2 with ⟨he, hfault⟩ | ⟨he, hfault⟩
    · refine iff_of_true ?_ (by rw [hfault]; exact fun hf => by cases hf)
      rintro e' s' ⟨⟩
      exact he
    · exact iff_of_false (fun hall => he (hall e s rfl)) (fun hne => hne hfault)

/-- A run that follows its checks returns when they all pass. -/
theorem Follows.returns_iff {cs : List Check} {r : EStateM.Result ε σ α} (h : Follows isOwn inv cs r) :
    (∃ a s, r = .ok a s) ↔ firstFault cs = none := by
  cases r with
  | ok a s => exact iff_of_true ⟨a, s, rfl⟩ h.2
  | error e s =>
    have hfault : firstFault cs ≠ none := by
      rcases h.2 with ⟨-, hfault⟩ | ⟨-, hfault⟩
      · rw [hfault]
        exact Option.some_ne_none _
      · rw [hfault]
        exact Option.some_ne_none _
    exact iff_of_false (fun ⟨_, _, h⟩ => by cases h) hfault

end Follows

section Passing

@[simp] theorem firstFault_nil : firstFault [] = none := rfl

@[simp] theorem firstFault_own {b : Bool} {cs : List Check} :
    firstFault (.own b :: cs) = none ↔ b = true ∧ firstFault cs = none := by
  cases b <;> simp [firstFault]

@[simp] theorem firstFault_foreign {b : Bool} {cs : List Check} :
    firstFault (.foreign b :: cs) = none ↔ b = true ∧ firstFault cs = none := by
  cases b <;> simp [firstFault]

@[simp] theorem firstFault_append_none {cs ds : List Check} :
    firstFault (cs ++ ds) = none ↔ firstFault cs = none ∧ firstFault ds = none := by
  rw [firstFault_append, Option.or_eq_none_iff]

@[simp] theorem firstFault_flatMap {γ : Type} {f : γ → List Check} {xs : List γ} :
    firstFault (xs.flatMap f) = none ↔ ∀ x ∈ xs, firstFault (f x) = none := by
  induction xs with
  | nil => simp
  | cons x xs ih => rw [List.flatMap_cons, firstFault_append_none, ih, List.forall_mem_cons]

end Passing

section Returning
variable {ε σ α β γ : Type}

theorem run_bind_eq_ok {x : EStateM ε σ α} {f : α → EStateM ε σ β} {s s'' : σ} {b : β} :
    (x >>= f) s = .ok b s'' ↔ ∃ a s', x s = .ok a s' ∧ f a s' = .ok b s'' := by
  cases hx : x s with
  | ok a s' =>
    rw [bind_ok hx]
    refine ⟨fun h => ⟨a, s', rfl, h⟩, ?_⟩
    rintro ⟨a', t, ⟨⟩, h⟩
    exact h
  | error e s' =>
    rw [bind_error hx]
    refine ⟨fun h => (by cases h), ?_⟩
    rintro ⟨a', t, h, -⟩
    cases h

theorem lift_bind_eq_ok {x : Except ε α} {f : α → EStateM ε σ β} {s s' : σ} {b : β} :
    (lift x >>= f) s = .ok b s' ↔ ∃ a, x = .ok a ∧ f a s = .ok b s' := by
  rw [run_bind_eq_ok]
  cases x with
  | ok a =>
    constructor
    · rintro ⟨a', t, ⟨⟩, h⟩
      exact ⟨a, rfl, h⟩
    · rintro ⟨a', ⟨⟩, h⟩
      exact ⟨a, s, rfl, h⟩
  | error e =>
    constructor
    · rintro ⟨a, t, h, -⟩
      cases h
    · rintro ⟨a, h, -⟩
      cases h

/-- A loop over elements that stand for `ds` returns: each gave a result, and the results changed the state one
after the other. -/
theorem mapM_eq_ok {δ : Type} {f : γ → EStateM ε σ α} {P : δ → γ → Prop} {R : δ → α → Prop} {act : σ → α → σ}
    (hf : ∀ d x s a s', P d x → f x s = .ok a s' → R d a ∧ s' = act s a) {ds : List δ} {xs : List γ}
    (hP : List.Forall₂ P ds xs) {s s' : σ} {as : List α} (h : (xs.mapM f) s = .ok as s') :
    List.Forall₂ R ds as ∧ s' = as.foldl act s := by
  induction hP generalizing s as with
  | nil =>
    cases h
    exact ⟨.nil, rfl⟩
  | @cons d x ds xs hd _ ih =>
    rw [List.mapM_cons] at h
    obtain ⟨a, s₁, hx, h⟩ := run_bind_eq_ok.mp h
    obtain ⟨rest, s₂, hxs, h⟩ := run_bind_eq_ok.mp h
    cases h
    obtain ⟨hR, rfl⟩ := hf d x s a s₁ hd hx
    obtain ⟨hrest, rfl⟩ := ih hxs
    exact ⟨.cons hR hrest, rfl⟩

end Returning

end Checks
