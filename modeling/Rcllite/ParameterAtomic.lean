import Rcllite.ParameterModel

/-! Requests of `set_parameters_atomically` among readers. The names are checked
in one critical section and the values assigned in one more each, so a reader
can run between two assignments as soon as there are two. -/
namespace Rcllite

namespace ParameterCore

theorem set_undeclared {core : ParameterCore} {name : List UInt8} (h : core.values.find? name = none)
    (env : PublishEnv) (value : ParameterValue) : core.set env name value = (.ok false, core) := by
  unfold set
  rw [h]

/-- An undeclared name leaves the map alone, a declared one gets the value. -/
theorem set_values (env : PublishEnv) (name : List UInt8) (value : ParameterValue) (core : ParameterCore) :
    (core.values.find? name = none ∧ (core.set env name value).2 = core) ∨
    (core.values.find? name ≠ none ∧
      (core.set env name value).2.values = core.values.insert name value) := by
  cases h : core.values.find? name with
  | none => exact Or.inl ⟨rfl, by rw [set_undeclared h]⟩
  | some old =>
    refine Or.inr ⟨nofun, ?_⟩
    unfold set
    rw [h]
    dsimp only
    split_ifs
    · unfold publishEventLocked
      split_ifs <;> rfl
    · rfl

/-- `set` raises only when the event is not written. -/
theorem set_ok {env : PublishEnv} (hw : env.written = true) (name : List UInt8) (value : ParameterValue)
    (core : ParameterCore) : (core.set env name value).1 = .ok (core.values.find? name).isSome := by
  unfold set publishEventLocked
  cases core.values.find? name with
  | none => rfl
  | some old =>
    dsimp only
    rw [if_pos hw]
    split_ifs
    · rfl
    · rfl

/-- To assign to a declared name declares nothing and undeclares nothing. -/
theorem insert_declared {core core' : ParameterCore} {name : List UInt8} {value : ParameterValue}
    (hdecl : core.values.find? name ≠ none) (hins : core'.values = core.values.insert name value)
    (n : List UInt8) : core'.values.find? n = none ↔ core.values.find? n = none := by
  rw [hins]
  by_cases hn : n = name
  · subst hn
    simp [hdecl]
  · rw [AssocMap.find?_insert_ne _ _ hn]

theorem set_declared (env : PublishEnv) (name : List UInt8) (value : ParameterValue)
    (core : ParameterCore) (n : List UInt8) :
    (core.set env name value).2.values.find? n = none ↔ core.values.find? n = none := by
  rcases set_values env name value core with ⟨-, hsame⟩ | ⟨hdecl, hins⟩
  · rw [hsame]
  · exact insert_declared hdecl hins n

theorem get_congr {core core' : ParameterCore} (h : core'.values = core.values) (name : List UInt8) :
    core'.get name = core.get name := by
  unfold get
  rw [h]

theorem getOr_congr {core core' : ParameterCore} (h : core'.values = core.values) (name : List UInt8) :
    core'.getOr name = core.getOr name := by
  unfold getOr
  rw [h]

theorem handleGet_congr {core core' : ParameterCore} (h : core'.values = core.values)
    (names : List (List UInt8)) : core'.handleGet names = core.handleGet names := by
  unfold handleGet
  rw [h]

theorem set_congr {core core' : ParameterCore} (h : core'.values = core.values) (env : PublishEnv)
    (name : List UInt8) (value : ParameterValue) :
    (core'.set env name value).2.values = (core.set env name value).2.values := by
  rcases set_values env name value core with ⟨hnone, hsame⟩ | ⟨hdecl, hins⟩
  · have hnone' : core'.values.find? name = none := by rw [h, hnone]
    rw [hsame, set_undeclared hnone']
    exact h
  · rcases set_values env name value core' with ⟨hnone', -⟩ | ⟨-, hins'⟩
    · exact absurd (h ▸ hnone') hdecl
    · rw [hins, hins', h]

/-- After `set` a name has the value or is not declared. -/
theorem find?_set_self (env : PublishEnv) (name : List UInt8) (value : ParameterValue) (core : ParameterCore) :
    (core.set env name value).2.values.find? name = none ∨
      (core.set env name value).2.values.find? name = some value := by
  rcases set_values env name value core with ⟨hnone, hsame⟩ | ⟨-, hins⟩
  · rw [hsame]
    exact Or.inl hnone
  · rw [hins, AssocMap.find?_insert_self]
    exact Or.inr rfl

/-- What the check of `handle_set_atomically` looks for. -/
def AllDeclared (core : ParameterCore) (parameters : List RclParameter) : Prop :=
  ∀ p ∈ parameters, core.values.find? p.name ≠ none

/-- The flag can only fall, and falls at the first undeclared name. -/
theorem foldl_checkOne (core : ParameterCore) (l : List RclParameter) (acc : Bool × List UInt8) :
    (l.foldl core.checkOne acc).1 = true ↔ acc.1 = true ∧ core.AllDeclared l := by
  induction l generalizing acc with
  | nil => simp [AllDeclared]
  | cons p l ih =>
    have hcons : core.AllDeclared (p :: l) ↔ core.values.find? p.name ≠ none ∧ core.AllDeclared l :=
      List.forall_mem_cons
    rw [List.foldl_cons, ih, hcons]
    unfold checkOne
    cases core.values.find? p.name with
    | some v => simp
    | none => simp

theorem checkDeclared_iff (core : ParameterCore) (parameters : List RclParameter) :
    (core.checkDeclared parameters).1 = true ↔ core.AllDeclared parameters := by
  unfold checkDeclared
  rw [foldl_checkOne]
  exact and_iff_right rfl

end ParameterCore

section Checking
variable {core : ParameterCore} {parameters : List RclParameter}

/-- The check of a request whose names are all declared. -/
theorem next_checking_declared (hall : core.AllDeclared parameters) (env : PublishEnv) :
    (SetHandler.checking parameters).next env core = some (.applying parameters, core) := by
  have hflag := (ParameterCore.checkDeclared_iff core parameters).mpr hall
  unfold SetHandler.next
  dsimp only
  rcases hc : core.checkDeclared parameters with ⟨_ | _, reason⟩
  · rw [hc] at hflag
    cases hflag
  · rfl

/-- The check of a request with an undeclared name. -/
theorem next_checking_undeclared (hbad : ¬ core.AllDeclared parameters) (env : PublishEnv) :
    ∃ reason, (SetHandler.checking parameters).next env core = some (.returned ⟨false, reason⟩, core) := by
  have hflag := mt (ParameterCore.checkDeclared_iff core parameters).mp hbad
  unfold SetHandler.next
  dsimp only
  rcases hc : core.checkDeclared parameters with ⟨_ | _, reason⟩
  · exact ⟨_, rfl⟩
  · rw [hc] at hflag
    exact absurd rfl hflag

end Checking

/-- An assignment to a declared name, with the event written. -/
theorem next_applying_declared {core : ParameterCore} {p : RclParameter} {env : PublishEnv}
    (hdecl : core.values.find? p.name ≠ none) (hw : env.written = true) (todo : List RclParameter) :
    ∃ core', (SetHandler.applying (p :: todo)).next env core = some (.applying todo, core') ∧
      core'.values = core.values.insert p.name (fromRclValue p.value) := by
  have hok := ParameterCore.set_ok hw p.name (fromRclValue p.value) core
  have hins : (core.set env p.name (fromRclValue p.value)).2.values =
      core.values.insert p.name (fromRclValue p.value) :=
    (ParameterCore.set_values env p.name (fromRclValue p.value) core).elim
      (fun h => absurd h.1 hdecl) (fun h => h.2)
  unfold SetHandler.next
  dsimp only
  rcases hc : core.set env p.name (fromRclValue p.value) with ⟨_ | _, core'⟩
  · rw [hc] at hok
    cases hok
  · rw [hc] at hins
    exact ⟨core', rfl, hins⟩

/-- Local calls and reads beside the request under way, with every event
written. -/
def Observed : ParamState → ParamAction → Prop
  | _, .get _ _ | _, .getOr _ _ | _, .handleGet _ _ => True
  | _, .set env _ _ | _, .handler _ env => env.written = true
  | _, .declare _ _ _ | _, .startSet _ | _, .startSetAtomically _ => False

/-- One atomic request on `core`, among any number of local calls and reads. -/
def atomicSystem (core : ParameterCore) (parameters : List RclParameter) :
    Transition.System ParamState ParamAction :=
  (paramSystem ⟨core, [.checking parameters]⟩).restrict Observed

/-- What the other users of the store see of a step: their own calls, with what
the reads returned, and nothing of the request. -/
def ParamAction.seen : ParamAction → Option ParamAction
  | .handler _ _ => none
  | a => some a

/-- All assignments of a request. -/
def ParameterCore.assignAll (parameters : List RclParameter) (core : ParameterCore) : ParameterCore :=
  parameters.foldl (fun core p => core.assign p.name (fromRclValue p.value)) core

/-- The store as a request should leave it to its readers: as a whole before
the request or as a whole after it. -/
structure WholeState where
  core : ParameterCore
  applied : Bool

inductive WholeStep (parameters : List RclParameter) : WholeState → Option ParamAction → WholeState → Prop
  | call {core core' : ParameterCore} {applied : Bool} {a : ParamAction}
      (hs : ParamStep ⟨core, []⟩ a ⟨core', []⟩) : WholeStep parameters ⟨core, applied⟩ (some a) ⟨core', applied⟩
  | apply {core : ParameterCore} (hall : core.AllDeclared parameters) :
      WholeStep parameters ⟨core, false⟩ none ⟨core.assignAll parameters, true⟩

/-- A store on which the request takes effect in one step, once at most, and
not at all when a name is undeclared. -/
def wholeSystem (core : ParameterCore) (parameters : List RclParameter) :
    Transition.System WholeState (Option ParamAction) where
  init w := w = ⟨core, false⟩
  step := WholeStep parameters

/-- Whatever `get`, `get_or` and `handle_get` return in a run is what they
could return if the request took effect as a whole, and a request that names an
undeclared parameter changes no entry: whatever changes the map is a local
`set`. -/
def AtomicToObservers (core : ParameterCore) (parameters : List RclParameter) : Prop :=
  (∀ seen, (atomicSystem core parameters).Observes ParamAction.seen seen →
    (wholeSystem core parameters).Observes id seen) ∧
  (¬ core.AllDeclared parameters → ∀ s a s', (atomicSystem core parameters).Reachable s →
    (atomicSystem core parameters).step s a s' →
    (∃ env name value, a = .set env name value) ∨ s'.core.values = s.core.values)

instance : Nontrivial ParameterValue := ⟨toValue 0, toValue 1, by decide⟩

section
variable {core : ParameterCore} {parameters : List RclParameter} {s : ParamState}

theorem only_handler {x h : SetHandler} {i : ℕ} (hget : [x][i]? = some h) : i = 0 ∧ h = x := by
  rw [List.getElem?_singleton] at hget
  split_ifs at hget with hi
  exact ⟨hi, (Option.some.inj hget).symm⟩

/-- Checked against undeclared names, the request never gets to assign. -/
def Refused (core : ParameterCore) (parameters : List RclParameter) (s : ParamState) : Prop :=
  (∀ n, s.core.values.find? n = none ↔ core.values.find? n = none) ∧
    (s.handlers = [.checking parameters] ∨ ∃ r, s.handlers = [.returned r])

theorem step_refused (hbad : ¬ core.AllDeclared parameters) {a : ParamAction} {s' : ParamState}
    (hi : Refused core parameters s) (hs : (atomicSystem core parameters).step s a s') :
    Refused core parameters s' ∧
      ((∃ env name value, a = .set env name value) ∨ s'.core.values = s.core.values) := by
  obtain ⟨hdecl, hh⟩ := hi
  obtain ⟨hobs, hs⟩ := hs
  cases hs with
  | declare => cases hobs
  | startSet => cases hobs
  | startSetAtomically => cases hobs
  | get name => exact ⟨⟨hdecl, hh⟩, Or.inr rfl⟩
  | getOr name => exact ⟨⟨hdecl, hh⟩, Or.inr rfl⟩
  | handleGet names => exact ⟨⟨hdecl, hh⟩, Or.inr rfl⟩
  | set env name value =>
    refine ⟨⟨?_, hh⟩, Or.inl ⟨env, name, value, rfl⟩⟩
    intro n
    rw [ParameterCore.set_declared, hdecl]
  | handler i env hget hn =>
    rcases hh with hh | ⟨r, hh⟩
    · -- the check
      have hbad' : ¬ s.core.AllDeclared parameters := by
        intro hall
        refine hbad (fun p hp => ?_)
        exact fun hnone => hall p hp ((hdecl p.name).mpr hnone)
      rw [hh] at hget
      obtain ⟨rfl, rfl⟩ := only_handler hget
      obtain ⟨reason, hcheck⟩ := next_checking_undeclared hbad' env
      rw [hcheck] at hn
      cases hn
      refine ⟨⟨hdecl, Or.inr ⟨⟨false, reason⟩, ?_⟩⟩, Or.inr rfl⟩
      rw [hh]
      rfl
    · -- a handler that has returned takes no further step
      rw [hh] at hget
      obtain ⟨-, rfl⟩ := only_handler hget
      cases hn

theorem refused_reachable (hbad : ¬ core.AllDeclared parameters)
    (h : (atomicSystem core parameters).Reachable s) : Refused core parameters s := by
  refine h.invariant (Refused core parameters) ?_ ?_
  · intro s hs
    cases hs
    exact ⟨fun n => Iff.rfl, Or.inl rfl⟩
  · intro s a s' _ hi hs
    exact (step_refused hbad hi hs).1

/-- The request has still to make its assignments, or has none left to make. -/
def Ahead (core : ParameterCore) (parameters : List RclParameter) (s : ParamState) (w : WholeState) : Prop :=
  (s.handlers = [.checking parameters] ∨ s.handlers = [.applying parameters] ∧ core.AllDeclared parameters) ∧
      w.applied = false ∨
    ∃ h, s.handlers = [h] ∧ (h = .applying [] ∨ ∃ r, h = .returned r)

/-- The two stores hold the same map, and the same names as at the start. -/
structure Matches (core : ParameterCore) (parameters : List RclParameter) (s : ParamState) (w : WholeState) : Prop where
  values : w.core.values = s.core.values
  declared : ∀ n, s.core.values.find? n = none ↔ core.values.find? n = none
  pending : Ahead core parameters s w

theorem Matches.allDeclared {w : WholeState} (hm : Matches core parameters s w) :
    s.core.AllDeclared parameters ↔ core.AllDeclared parameters :=
  forall₂_congr (fun p _ => not_congr (hm.declared p.name))

/-- The answer of the request changes nothing. -/
theorem Matches.answered {w : WholeState} {h : SetHandler} (hm : Matches core parameters s w)
    (hh : s.handlers = [h]) (r : SetParametersResult) :
    Matches core parameters ⟨s.core, s.handlers.set 0 (.returned r)⟩ w := by
  refine ⟨hm.values, hm.declared, Or.inr ⟨.returned r, ?_, Or.inr ⟨r, rfl⟩⟩⟩
  rw [hh]
  rfl

/-- A request that is refused or has at most one assignment takes effect as a whole. -/
theorem step_followed (hshort : core.AllDeclared parameters → parameters.length ≤ 1) {a : ParamAction}
    {s' : ParamState} {w : WholeState} (hm : Matches core parameters s w)
    (hs : (atomicSystem core parameters).step s a s') :
    ∃ cs w', (wholeSystem core parameters).Run w cs w' ∧ cs.filterMap id = a.seen.toList ∧
      Matches core parameters s' w' := by
  obtain ⟨wcore, applied⟩ := w
  obtain ⟨hobs, hs⟩ := hs
  cases hs with
  | declare => cases hobs
  | startSet => cases hobs
  | startSetAtomically => cases hobs
  | get name =>
    rw [← ParameterCore.get_congr hm.values name]
    exact ⟨_, _, .cons (.call (.get name)) .nil, rfl, hm⟩
  | getOr name =>
    rw [← ParameterCore.getOr_congr hm.values name]
    exact ⟨_, _, .cons (.call (.getOr name)) .nil, rfl, hm⟩
  | handleGet names =>
    rw [← ParameterCore.handleGet_congr hm.values names]
    exact ⟨_, _, .cons (.call (.handleGet names)) .nil, rfl, hm⟩
  | set env name value =>
    refine ⟨_, _, .cons (.call (.set env name value)) .nil, rfl, ?_, ?_, hm.pending⟩
    · exact ParameterCore.set_congr hm.values env name value
    · intro n
      rw [ParameterCore.set_declared, hm.declared]
  | handler i env hget hn =>
    rcases hm.pending with ⟨hh | ⟨hh, hall⟩, happ⟩ | ⟨h, hh, hdone⟩
    · -- the check
      rw [hh] at hget
      obtain ⟨rfl, rfl⟩ := only_handler hget
      by_cases hall : core.AllDeclared parameters
      · rw [next_checking_declared (hm.allDeclared.mpr hall)] at hn
        cases hn
        refine ⟨[], _, .nil, rfl, hm.values, hm.declared, Or.inl ⟨Or.inr ⟨?_, hall⟩, happ⟩⟩
        rw [hh]
        rfl
      · obtain ⟨reason, hcheck⟩ := next_checking_undeclared (mt hm.allDeclared.mp hall) env
        rw [hcheck] at hn
        cases hn
        exact ⟨[], _, .nil, rfl, hm.answered hh _⟩
    · -- the one assignment, if there is one
      rw [hh] at hget
      obtain ⟨rfl, rfl⟩ := only_handler hget
      match parameters, hshort hall with
      | [], _ =>
        cases hn
        exact ⟨[], _, .nil, rfl, hm.answered hh _⟩
      | [p], _ =>
        have hdecl : s.core.values.find? p.name ≠ none := hm.allDeclared.mpr hall p (List.mem_singleton_self p)
        obtain ⟨core', hnext, hins⟩ := next_applying_declared hdecl hobs []
        rw [hnext] at hn
        cases hn
        have hwall : wcore.AllDeclared [p] := by
          intro q hq
          rw [hm.values]
          exact hm.allDeclared.mpr hall q hq
        cases happ
        refine ⟨[none], _, .cons (.apply hwall) .nil, rfl, ?_, ?_, Or.inr ⟨_, ?_, Or.inl rfl⟩⟩
        · calc
            wcore.values.insert p.name (fromRclValue p.value) = s.core.values.insert p.name (fromRclValue p.value) :=
              congrArg (fun m => m.insert p.name (fromRclValue p.value)) hm.values
            _ = _ := hins.symm
        · intro n
          rw [← hm.declared n]
          exact ParameterCore.insert_declared hdecl hins n
        · rw [hh]
          rfl
    · -- the answer
      rw [hh] at hget
      obtain ⟨rfl, rfl⟩ := only_handler hget
      rcases hdone with rfl | ⟨r, rfl⟩
      · cases hn
        exact ⟨[], _, .nil, rfl, hm.answered hh _⟩
      · cases hn

/-- Unseen, the store changes once at most. -/
theorem unseen_run {w w' : WholeState} {cs : List (Option ParamAction)}
    (h : (wholeSystem core parameters).Run w cs w') (hcs : cs.filterMap id = []) :
    w' = w ∨ w.applied = false ∧ w'.applied = true := by
  cases h with
  | nil => exact Or.inl rfl
  | cons hs hrest =>
    cases hs with
    | call => cases hcs
    | apply =>
      right
      refine ⟨rfl, ?_⟩
      cases hrest with
      | nil => rfl
      | cons hs _ =>
        cases hs with
        | call => cases hcs

theorem WholeStep.of_set {w w' : WholeState} {env : PublishEnv} {name : List UInt8} {value : ParameterValue}
    (h : WholeStep parameters w (some (.set env name value)) w') :
    w'.applied = w.applied ∧ w'.core = (w.core.set env name value).2 := by
  cases h with
  | call hs =>
    cases hs with
    | set => exact ⟨rfl, rfl⟩

theorem WholeStep.of_getOr {w w' : WholeState} {name : List UInt8} {result : Option ParameterValue}
    (h : WholeStep parameters w (some (.getOr name result)) w') : w' = w ∧ w.core.getOr name = result := by
  cases h with
  | call hs =>
    cases hs with
    | getOr => exact ⟨rfl, rfl⟩

/-- A name is set to one value and read with another: the request has taken effect in between. -/
theorem set_then_read {w w' : WholeState} {cs : List (Option ParamAction)} {env : PublishEnv}
    {name : List UInt8} {value found : ParameterValue} {seen : List ParamAction}
    (h : (wholeSystem core parameters).Run w cs w')
    (hcs : cs.filterMap id = .set env name value :: .getOr name (some found) :: seen) (hne : value ≠ found) :
    w.applied = false ∧ ∃ w₁ rest, w₁.applied = true ∧ (wholeSystem core parameters).Run w₁ rest w' ∧
      rest.filterMap id = seen := by
  obtain ⟨hidden, w₁, a, w₂, rest, hrun₁, hhidden, hset, rfl, hrun₂, hrest⟩ := h.observed_cons hcs
  obtain ⟨hidden', w₃, a, w₄, rest', hrun₃, hhidden', hget, rfl, hrun₄, hrest'⟩ := hrun₂.observed_cons hrest
  obtain ⟨happ₂, hcore₂⟩ := WholeStep.of_set hset
  obtain ⟨rfl, hfound⟩ := WholeStep.of_getOr hget
  rcases unseen_run hrun₃ hhidden' with rfl | ⟨hbefore, hafter⟩
  · -- nothing in between: the read returns what was set
    rw [hcore₂] at hfound
    unfold ParameterCore.getOr at hfound
    rcases w₁.core.find?_set_self env name value with hself | hself
    · rw [hself] at hfound
      cases hfound
    · rw [hself] at hfound
      exact absurd (Option.some.inj hfound) hne
  · refine ⟨?_, w₄, rest', hafter, hrun₄, hrest'⟩
    rcases unseen_run hrun₁ hhidden with rfl | ⟨hw, -⟩
    · exact happ₂.symm.trans hbefore
    · exact hw

/-- That happens once. -/
theorem not_twice {env env' : PublishEnv} {name name' : List UInt8} {value value' found found' : ParameterValue}
    (hne : value ≠ found) (hne' : value' ≠ found') :
    ¬ (wholeSystem core parameters).Observes id [.set env name value, .getOr name (some found),
      .set env' name' value', .getOr name' (some found')] := by
  rintro ⟨w, cs, w', -, hrun, hseen⟩
  obtain ⟨-, w₁, rest, happ, hrun₁, hrest⟩ := set_then_read hrun hseen hne
  obtain ⟨hfree, -⟩ := set_then_read hrun₁ hrest hne'
  rw [happ] at hfree
  cases hfree

theorem handler_step {c c' : ParameterCore} {h h' : SetHandler} (hn : h.next ⟨0, true⟩ c = some (h', c')) :
    (atomicSystem core parameters).step ⟨c, [h]⟩ (.handler 0 ⟨0, true⟩) ⟨c', [h']⟩ :=
  ⟨rfl, .handler 0 ⟨0, true⟩ rfl hn⟩

theorem set_step (c : ParameterCore) (hs : List SetHandler) (name : List UInt8) (value : ParameterValue) :
    (atomicSystem core parameters).step ⟨c, hs⟩ (.set ⟨0, true⟩ name value) ⟨(c.set ⟨0, true⟩ name value).2, hs⟩ :=
  ⟨rfl, .set ⟨0, true⟩ name value⟩

theorem getOr_step {c : ParameterCore} {name : List UInt8} {result : Option ParameterValue}
    (hread : c.getOr name = result) (hs : List SetHandler) :
    (atomicSystem core parameters).step ⟨c, hs⟩ (.getOr name result) ⟨c, hs⟩ :=
  ⟨trivial, hread ▸ .getOr name⟩

/-- Each of two assignments is seen on its own: set the name to something else,
let the assignment come, and read. -/
theorem two_assignments_seen {p q : RclParameter} {rest : List RclParameter}
    (hall : core.AllDeclared (p :: q :: rest)) (z z' : ParameterValue) :
    (atomicSystem core (p :: q :: rest)).Observes ParamAction.seen
      [.set ⟨0, true⟩ p.name z, .getOr p.name (some (fromRclValue p.value)),
        .set ⟨0, true⟩ q.name z', .getOr q.name (some (fromRclValue q.value))] := by
  have hall₁ : (core.set ⟨0, true⟩ p.name z).2.AllDeclared (p :: q :: rest) := by
    intro x hx
    exact mt (ParameterCore.set_declared _ p.name z core x.name).mp (hall x hx)
  have hp := hall₁ p List.mem_cons_self
  obtain ⟨c₂, hassign₂, hc₂⟩ := next_applying_declared hp (rfl : PublishEnv.written ⟨0, true⟩ = true) (q :: rest)
  have hread₂ : c₂.getOr p.name = some (fromRclValue p.value) := by
    unfold ParameterCore.getOr
    rw [hc₂, AssocMap.find?_insert_self]
  have hq : (c₂.set ⟨0, true⟩ q.name z').2.values.find? q.name ≠ none := by
    rw [ne_eq, ParameterCore.set_declared, ParameterCore.insert_declared hp hc₂]
    exact hall₁ q (List.mem_cons_of_mem _ List.mem_cons_self)
  obtain ⟨c₄, hassign₄, hc₄⟩ := next_applying_declared hq (rfl : PublishEnv.written ⟨0, true⟩ = true) rest
  have hread₄ : c₄.getOr q.name = some (fromRclValue q.value) := by
    unfold ParameterCore.getOr
    rw [hc₄, AssocMap.find?_insert_self]
  exact ⟨⟨core, _⟩, _, _, rfl, .cons (set_step _ _ p.name z) (.cons (handler_step (next_checking_declared hall₁ _))
    (.cons (handler_step hassign₂) (.cons (getOr_step hread₂ _) (.cons (set_step _ _ q.name z')
      (.cons (handler_step hassign₄) (.cons (getOr_step hread₄ _) .nil)))))), rfl⟩

/-- A request of two assignments is not atomic. -/
theorem not_atomic {p q : RclParameter} {rest : List RclParameter} (hall : core.AllDeclared (p :: q :: rest)) :
    ¬ AtomicToObservers core (p :: q :: rest) := by
  intro hatomic
  obtain ⟨z, hz⟩ := exists_ne (fromRclValue p.value)
  obtain ⟨z', hz'⟩ := exists_ne (fromRclValue q.value)
  exact not_twice hz hz' (hatomic.1 _ (two_assignments_seen hall z z'))

end

/-- A request is atomic to observers exactly when it is refused or has at most
one assignment. -/
theorem set_atomically_observed_whole_iff (core : ParameterCore) (parameters : List RclParameter) :
    AtomicToObservers core parameters ↔ (core.AllDeclared parameters → parameters.length ≤ 1) := by
  constructor
  · intro hatomic hall
    match parameters with
    | [] => exact Nat.zero_le 1
    | [p] => exact Nat.le_refl 1
    | p :: q :: rest => exact absurd hatomic (not_atomic hall)
  · intro hshort
    refine ⟨fun seen hseen => ?_, ?_⟩
    · refine hseen.simulation (Matches core parameters) ?_ (fun s a s' w hm hs => step_followed hshort hm hs)
      rintro s rfl
      exact ⟨⟨core, false⟩, rfl, rfl, fun n => Iff.rfl, Or.inl ⟨Or.inl rfl, rfl⟩⟩
    · intro hbad s a s' hr hs
      exact (step_refused hbad (refused_reachable hbad hr) hs).2

/-- Two integer parameters, both zero. -/
def twoZeros : ParameterCore where
  node := text "/n"
  values := (AssocMap.empty.insert [97] (toValue 0)).insert [98] (toValue 0)
  events := []

def setBothToOne : List RclParameter :=
  [⟨[97], toRclValue (toValue 1)⟩, ⟨[98], toRclValue (toValue 1)⟩]

/-- `get_parameters` for both names returns the new value of one and the old
value of the other. -/
theorem half_applied_request_read : ¬ AtomicToObservers twoZeros setBothToOne ∧
    ∃ s, (atomicSystem twoZeros setBothToOne).Reachable s ∧
      (atomicSystem twoZeros setBothToOne).step s
        (.handleGet [[97], [98]] [toRclValue (toValue 1), toRclValue (toValue 0)]) s := by
  have hall : twoZeros.AllDeclared setBothToOne := by
    intro p hp
    simp only [setBothToOne, List.mem_cons, List.not_mem_nil, or_false] at hp
    rcases hp with rfl | rfl
    · nofun
    · nofun
  refine ⟨not_atomic hall, ?_⟩
  obtain ⟨core', hassign, hins⟩ := next_applying_declared (hall _ List.mem_cons_self)
    (rfl : PublishEnv.written ⟨0, true⟩ = true) [⟨[98], toRclValue (toValue 1)⟩]
  have hread : core'.handleGet [[97], [98]] = [toRclValue (toValue 1), toRclValue (toValue 0)] := by
    unfold ParameterCore.handleGet
    rw [hins]
    rfl
  have hstart : (atomicSystem twoZeros setBothToOne).Reachable ⟨twoZeros, [.checking setBothToOne]⟩ := .init rfl
  have hone := (hstart.step (handler_step (next_checking_declared hall _))).step (handler_step hassign)
  exact ⟨_, hone, trivial, hread ▸ .handleGet [[97], [98]]⟩

end Rcllite
