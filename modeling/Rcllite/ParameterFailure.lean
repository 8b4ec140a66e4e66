import Rcllite.ParameterAtomic
import Rcllite.ParameterServices

/-! Calls that fail. A value is stored before its event is published, so an
event that cannot be written leaves the store changed behind a call that raises. -/
namespace Rcllite

namespace ParameterCore

/-- The maps agree as maps. -/
def SameValues (core core' : ParameterCore) : Prop := ∀ name, core'.values.find? name = core.values.find? name

theorem SameValues.refl (core : ParameterCore) : core.SameValues core := fun _ => rfl

/-- What `set` leaves under each name, whether or not it raises. -/
theorem find?_set (env : PublishEnv) (name : List UInt8) (value : ParameterValue) (core : ParameterCore)
    (n : List UInt8) : (core.set env name value).2.values.find? n =
      if n = name ∧ core.values.find? name ≠ none then some value else core.values.find? n := by
  rcases set_values env name value core with ⟨hnone, hsame⟩ | ⟨hdecl, hins⟩
  · rw [hsame, if_neg (fun h => h.2 hnone)]
  · rw [hins]
    by_cases hn : n = name
    · rw [if_pos ⟨hn, hdecl⟩, hn, AssocMap.find?_insert_self]
    · rw [if_neg (fun h => hn h.1), AssocMap.find?_insert_ne _ _ hn]

/-- `set` raises exactly when an event is due and cannot be written. -/
theorem set_raises_iff (env : PublishEnv) (name : List UInt8) (value : ParameterValue) (core : ParameterCore) :
    (∃ e, (core.set env name value).1 = .error e) ↔
      core.values.find? name ≠ none ∧ value.type ≠ .notSet ∧ env.written = false := by
  unfold set publishEventLocked
  cases core.values.find? name with
  | none => simp
  | some old =>
    dsimp only
    by_cases hv : value.type = .notSet
    · simp [hv]
    · cases hw : env.written with
      | false => simp [hv, Except.map]
      | true => simp [hv, Except.map]

/-- `declare` raises for a bad name, which changes nothing, or after the value was stored. -/
theorem declare_cases (env : PublishEnv) (name : List UInt8) (value : ParameterValue) (core : ParameterCore) :
    (name = [] ∨ core.values.find? name ≠ none) ∧ (core.declare env name value).2 = core ∨
    (name ≠ [] ∧ core.values.find? name = none) ∧
      (core.declare env name value).2.values = core.values.insert name value ∧
      ((∃ e, (core.declare env name value).1 = .error e) ↔ value.type ≠ .notSet ∧ env.written = false) := by
  unfold declare
  by_cases hempty : name = []
  · rw [if_pos hempty]
    exact Or.inl ⟨Or.inl hempty, rfl⟩
  · rw [if_neg hempty]
    cases hfind : core.values.find? name with
    | some old => exact Or.inl ⟨Or.inr nofun, rfl⟩
    | none =>
      right
      refine ⟨⟨hempty, rfl⟩, ?_⟩
      unfold publishEventLocked
      dsimp only
      by_cases hv : value.type = .notSet
      · simp [hv, assign]
      · cases hw : env.written with
        | false => simp [hv, assign]
        | true => simp [hv, assign]

end ParameterCore

/-- The assignments up to and including the first one whose event is due and cannot be written. -/
def untilFailure : (env : ℕ → PublishEnv) → List RclParameter → Option (List RclParameter)
  | _, [] => none
  | env, p :: rest =>
    if (fromRclValue p.value).type ≠ .notSet ∧ (env 0).written = false then some [p]
    else (untilFailure (fun i => env (i+1)) rest).map (fun done => p :: done)

/-- The second loop of `handle_set_atomically`: it ends with the answer, or raises with the assignments
so far in the store. -/
theorem SetHandler.exec_applying (env : ℕ → PublishEnv) (todo : List RclParameter) (core : ParameterCore)
    (hall : core.AllDeclared todo) :
    match untilFailure env todo with
    | none => (exec env (todo.length+1) (.applying todo) core).1 = .returned ⟨true, []⟩
    | some done => ∃ e core', exec env (todo.length+1) (.applying todo) core = (.raised e, core') ∧
        ∀ n, core'.values.find? n = ((lastValue n done).map fromRclValue).or (core.values.find? n) := by
  induction todo generalizing env core with
  | nil => rfl
  | cons p rest ih =>
    have hp : core.values.find? p.name ≠ none := hall p List.mem_cons_self
    have hraise := ParameterCore.set_raises_iff (env 0) p.name (fromRclValue p.value) core
    have hstored := ParameterCore.find?_set (env 0) p.name (fromRclValue p.value) core
    rw [untilFailure, List.length_cons, exec, SetHandler.next]
    rcases hset : core.set (env 0) p.name (fromRclValue p.value) with ⟨e | ok, core'⟩
    · -- this assignment raises
      rw [hset] at hraise hstored
      rw [if_pos (hraise.mp ⟨e, rfl⟩).2]
      refine ⟨e, core', ?_, ?_⟩
      · cases hlen : rest.length <;> rfl
      · intro n
        rw [hstored, lastValue, lastValue, Option.none_or]
        by_cases hn : p.name = n
        · simp [hn, hn ▸ hp]
        · simp [hn, Ne.symm hn]
    · -- this one goes through, and the names that are declared stay the same
      rw [hset] at hraise hstored
      have hno : ¬ ((fromRclValue p.value).type ≠ .notSet ∧ (env 0).written = false) := by
        intro h
        obtain ⟨e, he⟩ := hraise.mpr ⟨hp, h⟩
        cases he
      have hrest : core'.AllDeclared rest := by
        intro q hq
        have hdecl := ParameterCore.set_declared (env 0) p.name (fromRclValue p.value) core q.name
        rw [hset] at hdecl
        exact fun h => hall q (List.mem_cons_of_mem p hq) (hdecl.mp h)
      have hih := ih (fun i => env (i+1)) core' hrest
      rw [if_neg hno]
      cases hu : untilFailure (fun i => env (i+1)) rest with
      | none =>
        rw [hu] at hih
        exact hih
      | some done =>
        rw [hu] at hih
        obtain ⟨e, core'', hexec, hfind⟩ := hih
        refine ⟨e, core'', hexec, ?_⟩
        intro n
        rw [hfind, hstored, lastValue]
        by_cases hn : p.name = n
        · cases lastValue n done <;> simp [hn, hn ▸ hp]
        · simp [hn, Ne.symm hn]

/-- `handle_set_atomically` has returned with `successful` set. -/
def SetHandler.Succeeded : SetHandler → Prop
  | .returned r => r.successful = true
  | _ => False

namespace ParameterCore

/-- A `declare` that is accepted has no event to publish, or its event is written. -/
def DeclareKeeps (core : ParameterCore) (env : PublishEnv) (name : List UInt8) (value : ParameterValue) : Prop :=
  name ≠ [] → core.values.find? name = none → value.type = .notSet ∨ env.written = true

/-- A `set` whose event is due and cannot be written sets the value that is there already. -/
def SetKeeps (core : ParameterCore) (env : PublishEnv) (name : List UInt8) (value : ParameterValue) : Prop :=
  ∀ old, core.values.find? name = some old → value.type ≠ .notSet → env.written = false → value = old

/-- The assignments up to the first event that cannot be written, if there is one, give every parameter
the value it has already. -/
def AtomicKeeps (core : ParameterCore) (env : ℕ → PublishEnv) (parameters : List RclParameter) : Prop :=
  core.AllDeclared parameters → ∀ done, untilFailure (fun i => env (i+1)) parameters = some done →
    ∀ name v, lastValue name done = some v → core.values.find? name = some (fromRclValue v)

theorem declare_keeps_iff (core : ParameterCore) (env : PublishEnv) (name : List UInt8) (value : ParameterValue) :
    ((∃ e, (core.declare env name value).1 = .error e) → core.SameValues (core.declare env name value).2) ↔
      core.DeclareKeeps env name value := by
  rcases declare_cases env name value core with ⟨hbad, hsame⟩ | ⟨⟨hne, hnone⟩, hins, hraise⟩
  · refine iff_of_true ?_ ?_
    · intro _
      rw [hsame]
      exact .refl core
    · intro hne hnone
      rcases hbad with hempty | hdecl
      · exact absurd hempty hne
      · exact absurd hnone hdecl
  · rw [hraise]
    constructor
    · intro hkeeps _ _
      by_contra hno
      rw [not_or, Bool.not_eq_true] at hno
      -- the name was undeclared and now is not
      have hname := hkeeps hno name
      rw [hins, AssocMap.find?_insert_self, hnone] at hname
      cases hname
    · rintro hok ⟨hv, hw⟩
      rcases hok hne hnone with h | h
      · exact absurd h hv
      · rw [h] at hw
        cases hw

theorem set_keeps_iff (core : ParameterCore) (env : PublishEnv) (name : List UInt8) (value : ParameterValue) :
    ((∃ e, (core.set env name value).1 = .error e) → core.SameValues (core.set env name value).2) ↔
      core.SetKeeps env name value := by
  rw [set_raises_iff]
  constructor
  · intro hkeeps old hold hv hw
    have hdecl : core.values.find? name ≠ none := by
      rw [hold]
      nofun
    have hname := hkeeps ⟨hdecl, hv, hw⟩ name
    rw [find?_set, if_pos ⟨rfl, hdecl⟩, hold] at hname
    exact Option.some.inj hname
  · rintro hok ⟨hdecl, hv, hw⟩ n
    rw [find?_set]
    split_ifs with hn
    · obtain ⟨old, hold⟩ := Option.ne_none_iff_exists'.mp hdecl
      rw [hn.1, hold, hok old hold hv hw]
    · rfl

/-- A request that names an undeclared parameter is refused as a whole. -/
theorem handleSetAtomically_refused (core : ParameterCore) (env : ℕ → PublishEnv)
    {parameters : List RclParameter} (hbad : ¬ core.AllDeclared parameters) :
    (core.handleSetAtomically env parameters).2 = core := by
  obtain ⟨reason, hcheck⟩ := next_checking_undeclared hbad (env 0)
  rw [handleSetAtomically, SetHandler.exec, hcheck]
  rfl

/-- Otherwise it goes on to the assignments. -/
theorem handleSetAtomically_accepted (core : ParameterCore) (env : ℕ → PublishEnv)
    {parameters : List RclParameter} (hall : core.AllDeclared parameters) :
    core.handleSetAtomically env parameters =
      SetHandler.exec (fun i => env (i+1)) (parameters.length+1) (.applying parameters) core := by
  rw [handleSetAtomically, SetHandler.exec, next_checking_declared hall]

theorem handleSetAtomically_keeps_iff (core : ParameterCore) (env : ℕ → PublishEnv)
    (parameters : List RclParameter) :
    (¬ (core.handleSetAtomically env parameters).1.Succeeded →
      core.SameValues (core.handleSetAtomically env parameters).2) ↔ core.AtomicKeeps env parameters := by
  -- the check refuses a request before anything is assigned
  by_cases hall : core.AllDeclared parameters
  · have hexec := SetHandler.exec_applying (fun i => env (i+1)) parameters core hall
    rw [handleSetAtomically_accepted core env hall]
    cases hu : untilFailure (fun i => env (i+1)) parameters with
    | none =>
      rw [hu] at hexec
      refine iff_of_true ?_ ?_
      · intro hno
        rw [hexec] at hno
        exact absurd rfl hno
      · intro _ done hdone
        rw [hu] at hdone
        cases hdone
    | some done =>
      rw [hu] at hexec
      obtain ⟨e, core', hrun, hfind⟩ := hexec
      rw [hrun]
      constructor
      · intro hkeeps _ done' hdone' name v hlast
        rw [hu] at hdone'
        cases hdone'
        have hname := hkeeps id name
        rw [hfind, hlast] at hname
        exact hname.symm
      · intro hok _ name
        rw [hfind]
        cases hlast : lastValue name done with
        | none => rfl
        | some v => exact (hok hall done hu name v hlast).symm
  · refine iff_of_true ?_ ?_
    · intro _
      rw [handleSetAtomically_refused core env hall]
      exact .refl core
    · exact fun h => absurd h hall

end ParameterCore

/-- Exactly when a failing `declare`, `set` or `set_parameters_atomically` leaves the store as it was. -/
theorem failed_call_keeps_store_iff (core : ParameterCore) :
    (∀ env name value,
      ((∃ e, (core.declare env name value).1 = .error e) → core.SameValues (core.declare env name value).2) ↔
        core.DeclareKeeps env name value) ∧
    (∀ env name value,
      ((∃ e, (core.set env name value).1 = .error e) → core.SameValues (core.set env name value).2) ↔
        core.SetKeeps env name value) ∧
    ∀ env parameters,
      (¬ (core.handleSetAtomically env parameters).1.Succeeded →
        core.SameValues (core.handleSetAtomically env parameters).2) ↔ core.AtomicKeeps env parameters :=
  ⟨core.declare_keeps_iff, core.set_keeps_iff, core.handleSetAtomically_keeps_iff⟩

/-- An event that cannot be written: `declare` raises, and raises again as a duplicate when it is retried. -/
theorem declare_raises_and_declares :
    let core := ParameterCore.new (text "/n")
    let failed := core.declare ⟨0, false⟩ [97] (toValue 1)
    failed.1 = .error (.internalError (text "publish failed on /parameter_events")) ∧
      ¬ core.SameValues failed.2 ∧
      (failed.2.declare ⟨0, true⟩ [97] (toValue 1)).1 =
        .error (.invalidArguments (text "parameter already declared: " ++ [97])) := by
  refine ⟨rfl, ?_, rfl⟩
  intro hsame
  cases hsame [97]

end Rcllite
