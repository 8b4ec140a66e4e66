import Rcllite.ParameterEvents
import Rcllite.ParameterFailure

/-! Types over whole runs. `handle_describe` announces parameters without
dynamic typing, while no assignment looks at the type of the value it replaces. -/
namespace Rcllite

/-- What an action stores, and under which name. -/
def ParamState.stores (s : ParamState) : ParamAction → Option (List UInt8 × ParameterValue)
  | .declare _ name value =>
    if name = [] ∨ s.core.values.find? name ≠ none then none else some (name, value)
  | a => (s.assignment a).filter (fun p => (s.core.values.find? p.1).isSome)

/-- The value last stored under `name`, for a history that has the newest first. -/
def lastStored (name : List UInt8) (history : List (List UInt8 × ParameterValue)) : Option ParameterValue :=
  (history.find? (fun p => p.1 = name)).map Prod.snd

/-- A run in which every step meets `P`, with the values it stored, newest first. -/
inductive ParamRun (P : ParamState → ParamAction → Prop) (start : ParamState) :
    List (List UInt8 × ParameterValue) → ParamState → Prop
  | refl : ParamRun P start [] start
  | step {history : List (List UInt8 × ParameterValue)} {s s' : ParamState} {a : ParamAction}
      (h : ParamRun P start history s) (hp : P s a) (hs : ParamStep s a s') :
      ParamRun P start ((s.stores a).toList ++ history) s'

/-- No assignment changes the type of a parameter that has one. -/
def KeepsType (s : ParamState) (a : ParamAction) : Prop :=
  ∀ name value old, s.assignment a = some (name, value) → s.core.values.find? name = some old →
    old.type ≠ .notSet → value.type = old.type

section Step
variable {s s' : ParamState} {a : ParamAction}

/-- The lookup after an assignment, in terms of what the action stores. -/
theorem find?_set_stores (core : ParameterCore) (env : PublishEnv) (name : List UInt8) (value : ParameterValue)
    (n : List UInt8) : (core.set env name value).2.values.find? n =
      (lastStored n ((some (name, value)).filter (fun p => (core.values.find? p.1).isSome)).toList).or
        (core.values.find? n) := by
  rw [ParameterCore.find?_set]
  cases hfind : core.values.find? name with
  | none => simp [Option.filter, hfind, lastStored]
  | some old =>
    by_cases hn : n = name
    · simp [Option.filter, hfind, lastStored, hn]
    · simp [Option.filter, hfind, lastStored, hn, Ne.symm hn]

/-- A step stores one value, or none. -/
theorem find?_step (hs : ParamStep s a s') (n : List UInt8) :
    s'.core.values.find? n = (lastStored n (s.stores a).toList).or (s.core.values.find? n) := by
  cases hs with
  | declare env name value =>
    unfold ParamState.stores
    dsimp only
    rcases ParameterCore.declare_cases env name value s.core with ⟨hbad, hsame⟩ | ⟨⟨hne, hnone⟩, hins, -⟩
    · rw [if_pos hbad, hsame]
      rfl
    · rw [if_neg (not_or.mpr ⟨hne, not_not.mpr hnone⟩), hins]
      by_cases hn : n = name
      · simp [lastStored, hn]
      · simp [lastStored, AssocMap.find?_insert_ne _ _ hn, Ne.symm hn]
  | set env name value => exact find?_set_stores s.core env name value n
  | get name => rfl
  | getOr name => rfl
  | handleGet names => rfl
  | startSet parameters => rfl
  | startSetAtomically parameters => rfl
  | @handler i env h h' core' hi hn =>
    have hassign : s.assignment (.handler i env) = h.assignment := by
      rw [ParamState.assignment, hi]
      rfl
    unfold ParamState.stores
    dsimp only
    rw [hassign]
    rcases SetHandler.next_core hn with ⟨name, value, ha, rfl⟩ | ⟨ha, rfl⟩
    · rw [ha]
      exact find?_set_stores s.core env name value n
    · rw [ha]
      rfl

/-- What a step stores under a name that has a type has that type. -/
theorem stores_type (hk : KeepsType s a) {name : List UInt8} {value old : ParameterValue}
    (hst : s.stores a = some (name, value)) (hold : s.core.values.find? name = some old)
    (hset : old.type ≠ .notSet) : value.type = old.type := by
  have hassign : s.assignment a = some (name, value) := by
    cases a with
    | declare env n v =>
      -- a declared name is not declared again
      unfold ParamState.stores at hst
      dsimp only at hst
      split_ifs at hst with hbad
      cases hst
      rw [hold] at hbad
      exact absurd (Or.inr (Option.some_ne_none old)) hbad
    | _ =>
      unfold ParamState.stores at hst
      exact (Option.filter_eq_some_iff.mp hst).1
  exact hk name value old hassign hold hset

end Step

theorem lastStored_append (name : List UInt8) (xs ys : List (List UInt8 × ParameterValue)) :
    lastStored name (xs ++ ys) = (lastStored name xs).or (lastStored name ys) := by
  unfold lastStored
  rw [List.find?_append]
  cases xs.find? (fun p => p.1 = name) <;> rfl

/-- The store is what was last stored. -/
theorem ParamRun.find? {P : ParamState → ParamAction → Prop} {start s : ParamState}
    {history : List (List UInt8 × ParameterValue)} (h : ParamRun P start history s) (name : List UInt8) :
    s.core.values.find? name = (lastStored name history).or (start.core.values.find? name) := by
  induction h with
  | refl => rfl
  | step h hp hs ih => rw [find?_step hs, ih, lastStored_append, Option.or_assoc]

/-- A type, once there, stays. -/
theorem ParamRun.keeps_type {start s : ParamState} {history : List (List UInt8 × ParameterValue)}
    (h : ParamRun KeepsType start history s) {name : List UInt8} {old : ParameterValue}
    (hold : start.core.values.find? name = some old) (hset : old.type ≠ .notSet) :
    ∃ v, s.core.values.find? name = some v ∧ v.type = old.type := by
  induction h with
  | refl => exact ⟨old, hold, rfl⟩
  | @step history s s' a h hp hs ih =>
    obtain ⟨v, hv, htype⟩ := ih
    rw [find?_step hs, hv]
    -- only a step that stores under this name matters
    cases hst : s.stores a with
    | none => exact ⟨v, rfl, htype⟩
    | some nv =>
      obtain ⟨n, v'⟩ := nv
      by_cases hn : n = name
      · subst hn
        refine ⟨v', by simp [lastStored], ?_⟩
        rw [stores_type hp hst hv (htype ▸ hset), htype]
      · exact ⟨v, by simp [lastStored, hn], htype⟩

theorem ParameterCore.typeByte_of_find? {core : ParameterCore} {name : List UInt8} {v : ParameterValue}
    (h : core.values.find? name = some v) : core.typeByte name = v.type.byte := by
  unfold typeByte
  rw [h]

/-- In every run in which no assignment changes the type of a parameter that has one: a type that was
described stays, every handler reports it, and `get_parameter` for its C++ type reads the value stored
last. -/
theorem described_type_kept {start s : ParamState} {history : List (List UInt8 × ParameterValue)}
    (h : ParamRun KeepsType start history s) (name : List UInt8) (T : ParamType) (hT : T ≠ .notSet)
    (hdescribed : start.core.handleDescribe [name] = [⟨name, T.byte, false⟩]) :
    (∀ names, ∀ d ∈ s.core.handleDescribe names, d.dynamicTyping = false) ∧
    s.core.handleDescribe [name] = [⟨name, T.byte, false⟩] ∧
    s.core.handleGetTypes [name] = [T.byte] ∧
    (s.core.handleGet [name]).map RclParameterValue.type = [T.byte] ∧
    ∃ v, (lastStored name history).or (start.core.values.find? name) = some v ∧ v.type = T ∧
      ∀ t : CppType, t.type = T → s.core.getParameter t name = .ok (t.valueAs v) := by
  have hbyte : start.core.typeByte name = T.byte := by
    simpa [ParameterCore.handleDescribe] using hdescribed
  -- a name that is described with a type is declared
  obtain ⟨old, hold, hoT⟩ : ∃ old, start.core.values.find? name = some old ∧ old.type = T := by
    unfold ParameterCore.typeByte at hbyte
    cases hfind : start.core.values.find? name with
    | none =>
      rw [hfind] at hbyte
      exact absurd (congrArg ParamType.mk hbyte.symm) hT
    | some old =>
      rw [hfind] at hbyte
      exact ⟨old, rfl, congrArg ParamType.mk hbyte⟩
  obtain ⟨v, hv, htype⟩ := h.keeps_type hold (hoT ▸ hT)
  rw [hoT] at htype
  have hbyte' : s.core.typeByte name = T.byte := by
    rw [ParameterCore.typeByte_of_find? hv, htype]
  have htypes : s.core.handleGetTypes [name] = [T.byte] := by
    rw [ParameterCore.handleGetTypes, List.map_singleton, hbyte']
  refine ⟨?_, ?_, htypes, ?_, v, ?_, htype, ?_⟩
  · intro names d hd
    obtain ⟨n, -, rfl⟩ := List.mem_map.mp hd
    rfl
  · rw [ParameterCore.handleDescribe, List.map_singleton, hbyte']
  · rw [← ParameterCore.typeByte_eq_get, htypes]
  · rw [← h.find?, hv]
  · intro t _
    unfold ParameterCore.getParameter ParameterCore.getOr
    rw [hv]

/-- An integer parameter that is set twice, the second time by a request. -/
theorem described_type_kept_integer :
    ∃ s history, ParamRun KeepsType ⟨(ParameterCore.new (text "/n")).assign [97] (toValue 1), []⟩ history s ∧
      s.core.handleDescribe [[97]] = [⟨[97], 2, false⟩] ∧ s.core.getParameter .int64 [97] = .ok 3#64 := by
  let start : ParamState := ⟨(ParameterCore.new (text "/n")).assign [97] (toValue 1), []⟩
  have h₀ : ParamRun KeepsType start [] start := .refl
  have h₁ := h₀.step (a := .set ⟨0, true⟩ [97] (toValue 2)) (by
    rintro name value old ha hf -
    cases ha
    cases hf
    rfl) (.set _ _ _)
  have h₂ := h₁.step (a := .startSet [⟨[97], toRclValue (toValue 3)⟩]) nofun (.startSet _)
  have h₃ := h₂.step (a := .handler 0 ⟨0, true⟩) (by
    rintro name value old ha hf -
    cases ha
    cases hf
    rfl) (.handler 0 _ rfl rfl)
  obtain ⟨-, hdesc, -, -, v, hv, -, hget⟩ := described_type_kept h₃ [97] .integer (by decide) rfl
  refine ⟨_, _, h₃, hdesc, ?_⟩
  rw [hget .int64 rfl]
  cases hv
  rfl

/-- A described integer is set to a string: the description changes, and `get_parameter<int64_t>` yields
zero. -/
theorem described_type_changed :
    ∃ s history, ParamRun (fun _ _ => True) ⟨.new (text "/n"), []⟩ history s ∧
      ∃ s' history', ParamRun (fun _ _ => True) s history' s' ∧
        s.core.handleDescribe [[97]] = [⟨[97], 2, false⟩] ∧
        s'.core.handleDescribe [[97]] = [⟨[97], 4, false⟩] ∧
        s.core.getParameter .int64 [97] = .ok 1#64 ∧ s'.core.getParameter .int64 [97] = .ok 0#64 := by
  have h₀ : ParamRun (fun _ _ => True) ⟨.new (text "/n"), []⟩ [] ⟨.new (text "/n"), []⟩ := .refl
  have h₁ := h₀.step trivial (.declare ⟨0, true⟩ [97] (toValue 1))
  let value : ParameterValue := { type := .string, stringValue := [120] }
  exact ⟨_, _, h₁, _, _, .step .refl trivial (.set ⟨0, true⟩ [97] value), rfl, rfl, rfl, rfl⟩

end Rcllite
