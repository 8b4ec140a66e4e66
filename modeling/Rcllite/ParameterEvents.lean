import Rcllite.Lib.MapLog
import Rcllite.ParameterModel

/-! The mirror of a parameter store that a subscriber of `/parameter_events`
keeps. Every event is a put, announced as new when the store had no value; what
the stream never carries is that a value has gone back to `NotSet`. -/
namespace Rcllite

def ParameterEvent.updates (ev : ParameterEvent) : List (MapLog.Update (List UInt8) RclParameterValue) :=
  ev.newParameters.map (fun p => .put true p.name p.value) ++
    ev.changedParameters.map (fun p => .put false p.name p.value) ++
    ev.deletedParameters.map (fun p => .remove p.name)

namespace ParameterCore

def eventLog (core : ParameterCore) : List (MapLog.Update (List UInt8) RclParameterValue) :=
  core.events.flatMap ParameterEvent.updates

/-- The value of a parameter, unless it is undeclared or `NotSet`. -/
def current (core : ParameterCore) (name : List UInt8) : Option ParameterValue :=
  (core.values.find? name).filter (fun v => v.type ≠ .notSet)

/-- What the events published so far say about `name`. -/
def mirrored (core : ParameterCore) (name : List UInt8) : Option ParameterValue :=
  ((MapLog.replay core.eventLog).find? name).map fromRclValue

/-- The replayed events are the store without its `NotSet` entries, and every
entry was announced as new exactly when it was. -/
structure Mirrors (core : ParameterCore) : Prop where
  replay : ∀ name, core.mirrored name = core.current name
  honest : MapLog.Honest core.eventLog

theorem eventLog_publish (core : ParameterCore) (now : ℤ) (name : List UInt8) (value : ParameterValue)
    (isNew : Bool) : (core.event now name value isNew).updates = [.put isNew name (toRclValue value)] := by
  cases isNew <;> rfl

theorem current_assign_ne (core : ParameterCore) {name n : List UInt8} (value : ParameterValue)
    (h : n ≠ name) : (core.assign name value).current n = core.current n := by
  unfold current assign
  rw [AssocMap.find?_insert_ne _ _ h]

theorem current_assign_self (core : ParameterCore) (name : List UInt8) (value : ParameterValue) :
    (core.assign name value).current name = if value.type = .notSet then none else some value := by
  unfold current assign
  rw [AssocMap.find?_insert_self]
  by_cases h : value.type = .notSet
  · simp [Option.filter, h]
  · simp [Option.filter, h]

/-- A `NotSet` value may be stored silently where there was no value. -/
theorem Mirrors.assign_notSet {core : ParameterCore} (h : core.Mirrors) {name : List UInt8}
    {value : ParameterValue} (hv : value.type = .notSet) (hcur : core.current name = none) :
    (core.assign name value).Mirrors := by
  refine ⟨?_, h.honest⟩
  intro n
  change core.mirrored n = _
  rw [h.replay]
  by_cases hn : n = name
  · subst hn
    rw [current_assign_self, if_pos hv, hcur]
  · rw [current_assign_ne core value hn]

/-- A value that is stored and published, as new when there was none, keeps the
mirror. -/
theorem Mirrors.assign_publish {core : ParameterCore} (h : core.Mirrors) {env : PublishEnv}
    (hw : env.written = true) {name : List UInt8} {value : ParameterValue} (hv : value.type ≠ .notSet)
    {isNew : Bool} (hnew : isNew = true ↔ core.current name = none) :
    ((core.assign name value).publishEventLocked env name value isNew).2.Mirrors := by
  let core' := core.assign name value
  have hpub : (core'.publishEventLocked env name value isNew).2 =
      { core' with events := core'.events ++ [core'.event env.now name value isNew] } := by
    unfold publishEventLocked
    rw [if_pos hw]
  have hlog : (core'.publishEventLocked env name value isNew).2.eventLog =
      core.eventLog ++ [.put isNew name (toRclValue value)] := by
    rw [hpub, eventLog, List.flatMap_append, List.flatMap_singleton, eventLog_publish]
    rfl
  have hcurrent : ∀ n, (core'.publishEventLocked env name value isNew).2.current n = core'.current n := by
    intro n
    rw [hpub]
    rfl
  refine ⟨?_, ?_⟩
  · intro n
    rw [hcurrent, mirrored, hlog, MapLog.replay_concat]
    by_cases hn : n = name
    · subst hn
      rw [current_assign_self, if_neg hv, MapLog.Update.apply, AssocMap.find?_insert_self]
      rfl
    · rw [current_assign_ne core value hn, MapLog.Update.apply, AssocMap.find?_insert_ne _ _ hn,
        ← h.replay]
      rfl
  · rw [hlog]
    apply h.honest.concat
    rw [hnew, ← h.replay, mirrored, Option.map_eq_none_iff]

variable {core : ParameterCore} {env : PublishEnv} {name : List UInt8} {value : ParameterValue}

theorem Mirrors.declare (h : core.Mirrors) (hw : env.written = true) :
    (core.declare env name value).2.Mirrors := by
  unfold ParameterCore.declare
  by_cases hempty : name = []
  · rw [if_pos hempty]
    exact h
  · rw [if_neg hempty]
    cases hfind : core.values.find? name with
    | some old => exact h
    | none =>
      have hcur : core.current name = none := by
        rw [current, hfind]
        rfl
      dsimp only
      split_ifs with hv
      · exact h.assign_publish hw hv (iff_of_true rfl hcur)
      · exact h.assign_notSet (not_not.mp hv) hcur

/-- `set` keeps the mirror unless it takes a value away. -/
theorem Mirrors.set (h : core.Mirrors) (hw : env.written = true)
    (hkeep : ∀ old, core.values.find? name = some old → value.type = .notSet → old.type = .notSet) :
    (core.set env name value).2.Mirrors := by
  unfold ParameterCore.set
  cases hfind : core.values.find? name with
  | none => exact h
  | some old =>
    have hcur : core.current name = none ↔ old.type = .notSet := by
      rw [current, hfind]
      by_cases ho : old.type = .notSet
      · simp [Option.filter, ho]
      · simp [Option.filter, ho]
    dsimp only
    split_ifs with hv
    · exact h.assign_publish hw hv (by rw [hcur, decide_eq_true_iff])
    · exact h.assign_notSet (not_not.mp hv) (hcur.mpr (hkeep old hfind (not_not.mp hv)))

end ParameterCore

/-- Whether `set` returns or raises, the handler goes on with the store it
leaves. -/
theorem SetHandler.core_of_set {x : Except ParameterError Bool × ParameterCore} {onError : ParameterError → SetHandler}
    {onOk : Bool → SetHandler} {h' : SetHandler} {core' : ParameterCore}
    (hn : (match x with
      | (.error e, c) => some (onError e, c)
      | (.ok ok, c) => some (onOk ok, c)) = some (h', core')) : core' = x.2 := by
  obtain ⟨r, c⟩ := x
  cases r with
  | error e =>
    cases hn
    rfl
  | ok ok =>
    cases hn
    rfl

/-- The only thing a handler does to the store is the next assignment. -/
theorem SetHandler.next_core {h h' : SetHandler} {env : PublishEnv} {core core' : ParameterCore}
    (hn : h.next env core = some (h', core')) :
    (∃ name value, h.assignment = some (name, value) ∧ core' = (core.set env name value).2) ∨
      (h.assignment = none ∧ core' = core) := by
  cases h with
  | setting todo results =>
    cases todo with
    | nil => cases hn
    | cons p todo => exact Or.inl ⟨p.name, fromRclValue p.value, rfl, core_of_set hn⟩
  | checking parameters =>
    -- the check itself only reads
    refine Or.inr ⟨rfl, ?_⟩
    unfold SetHandler.next at hn
    dsimp only at hn
    rcases hc : core.checkDeclared parameters with ⟨_ | _, reason⟩
    · rw [hc] at hn
      cases hn
      rfl
    · rw [hc] at hn
      cases hn
      rfl
  | applying todo =>
    cases todo with
    | nil =>
      cases hn
      exact Or.inr ⟨rfl, rfl⟩
    | cons p todo => exact Or.inl ⟨p.name, fromRclValue p.value, rfl, core_of_set hn⟩
  | returned r => cases hn
  | raised e => cases hn

/-- The call of `set` that an action makes. -/
def ParamState.assignment (s : ParamState) : ParamAction → Option (List UInt8 × ParameterValue)
  | .set _ name value => some (name, value)
  | .handler i _ => (s.handlers[i]?).bind SetHandler.assignment
  | _ => none

/-- Every event the action publishes is written. -/
def ParamAction.Written : ParamAction → Prop
  | .declare env _ _ | .set env _ _ | .handler _ env => env.written = true
  | _ => True

/-- The action does not assign a `NotSet` value to a parameter that has one. -/
def NeverUnsets (s : ParamState) (a : ParamAction) : Prop :=
  ∀ name value old, s.assignment a = some (name, value) → s.core.values.find? name = some old →
    value.type = .notSet → old.type = .notSet

theorem step_mirrors {s s' : ParamState} {a : ParamAction} (hw : a.Written) (hk : NeverUnsets s a)
    (h : s.core.Mirrors) (hs : ParamStep s a s') : s'.core.Mirrors := by
  cases hs with
  | declare env name value => exact h.declare hw
  | set env name value => exact h.set hw (fun old => hk name value old rfl)
  | get name => exact h
  | getOr name => exact h
  | handleGet names => exact h
  | startSet parameters => exact h
  | startSetAtomically parameters => exact h
  | @handler i env hd hd' core' hi hn =>
    rcases SetHandler.next_core hn with ⟨name, value, ha, rfl⟩ | ⟨-, rfl⟩
    · refine h.set hw (fun old => hk name value old ?_)
      rw [ParamState.assignment, hi]
      exact ha
    · exact h

/-- In every run in which no set parameter is set to a `NotSet` value and every
event is written, the published events determine the store. -/
theorem parameter_events_determine_store (node : List UInt8) {s : ParamState}
    (h : ((paramSystem ⟨.new node, []⟩).restrict
      (fun s a => a.Written ∧ NeverUnsets s a)).Reachable s) : s.core.Mirrors := by
  refine h.invariant (fun s => s.core.Mirrors) ?_ ?_
  · intro s hs
    cases hs
    exact ⟨fun n => rfl, MapLog.honest_nil⟩
  · intro s a s' _ hi hs
    exact step_mirrors hs.1.1 hs.1.2 hi hs.2

/-- One integer parameter, declared locally and set by a request. -/
theorem parameter_events_determine_store_one :
    ∃ s, ((paramSystem ⟨.new (text "/n"), []⟩).restrict
        (fun s a => a.Written ∧ NeverUnsets s a)).Reachable s ∧
      s.core.current [97] = some (toValue 2) ∧ s.core.Mirrors := by
  have h₀ : ((paramSystem ⟨.new (text "/n"), []⟩).restrict
      (fun s a => a.Written ∧ NeverUnsets s a)).Reachable ⟨.new (text "/n"), []⟩ := .init rfl
  have h₁ := h₀.step_restrict (.declare ⟨0, true⟩ [97] (toValue 1)) ⟨rfl, nofun⟩
  have h₂ := h₁.step_restrict (.startSet [⟨[97], toRclValue (toValue 2)⟩]) ⟨trivial, nofun⟩
  have h₃ := h₂.step_restrict (.handler 0 ⟨0, true⟩ rfl rfl) ⟨rfl, by
    rintro name value old ha - hv
    cases ha
    cases hv⟩
  exact ⟨_, h₃, rfl, parameter_events_determine_store (text "/n") h₃⟩

/-- Set back to `NotSet`, a parameter lives on in the mirror. -/
theorem unset_parameter_not_published :
    ∃ s, ((paramSystem ⟨.new (text "/n"), []⟩).restrict (fun _ a => a.Written)).Reachable s ∧
      s.core.current [97] = none ∧ s.core.mirrored [97] = some (toValue 1) ∧ ¬ s.core.Mirrors := by
  have h₀ : ((paramSystem ⟨.new (text "/n"), []⟩).restrict (fun _ a => a.Written)).Reachable
      ⟨.new (text "/n"), []⟩ := .init rfl
  have h₁ := h₀.step_restrict (.declare ⟨0, true⟩ [97] (toValue 1)) rfl
  have h₂ := h₁.step_restrict (.set ⟨0, true⟩ [97] {}) rfl
  refine ⟨_, h₂, rfl, rfl, ?_⟩
  intro hm
  cases hm.replay [97]

end Rcllite
