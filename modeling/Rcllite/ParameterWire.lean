import Rcllite.MsgRoundTrip
import Rcllite.ParameterFailure

/-! `set_parameters` and `get_parameters` on the wire. The records of the
parameter model are read from and written to the schemas of `rcl_interfaces`. -/
namespace Rcllite

/-- `rcl_interfaces/msg/ParameterValue`. -/
def parameterValueSchema : Members :=
  .cons "type" .scalar (.prim .uint8) <|
  .cons "bool_value" .scalar (.prim .bool) <|
  .cons "integer_value" .scalar (.prim .int64) <|
  .cons "double_value" .scalar (.prim .float64) <|
  .cons "string_value" .scalar .string <|
  .cons "byte_array_value" .seq (.prim .byte) <|
  .cons "bool_array_value" .seq (.prim .bool) <|
  .cons "integer_array_value" .seq (.prim .int64) <|
  .cons "double_array_value" .seq (.prim .float64) <|
  .cons "string_array_value" .seq .string .nil

/-- `rcl_interfaces/msg/Parameter`. -/
def parameterSchema : Members :=
  .cons "name" .scalar .string <|
  .cons "value" .scalar (.nested "rcl_interfaces" "ParameterValue" parameterValueSchema) .nil

/-- The request of `rcl_interfaces/srv/SetParameters`. -/
def setParametersRequestSchema : Members :=
  .cons "parameters" .seq (.nested "rcl_interfaces" "Parameter" parameterSchema) .nil

namespace RclParameterValue

def ofVal : parameterValueSchema.Val → RclParameterValue
  | (type, bool, integer, double, string, bytes, bools, integers, doubles, strings, ()) =>
    ⟨type, bool, integer, double, string, bytes, bools, integers, doubles, strings⟩

def toVal (v : RclParameterValue) : parameterValueSchema.Val :=
  (v.type, v.boolValue, v.integerValue, v.doubleValue, v.stringValue, v.byteArrayValue, v.boolArrayValue,
    v.integerArrayValue, v.doubleArrayValue, v.stringArrayValue, ())

/-- The CDR encoding of a value. -/
def encode (v : RclParameterValue) : List UInt8 := parameterValueSchema.encode v.toVal

end RclParameterValue

def RclParameter.ofVal : parameterSchema.Val → RclParameter
  | (name, value, ()) => ⟨name, .ofVal value⟩

/-- The list that a decoded request carries. -/
def requestParameters (req : setParametersRequestSchema.Val) : List RclParameter :=
  let parameters : List parameterSchema.Val := req.1
  parameters.map RclParameter.ofVal

/-- Neither conversion forgets or swaps one of the ten fields, and every type byte is a `ParamType`. -/
theorem toRclValue_fromRclValue (v : RclParameterValue) : toRclValue (fromRclValue v) = v := rfl

namespace ParameterCore

/-- The entry of `handle_set`'s response for one parameter. -/
def resultFor (core : ParameterCore) (p : RclParameter) : SetParametersResult :=
  let ok := (core.values.find? p.name).isSome
  ⟨ok, if ok then [] else text "parameter not declared"⟩

/-- What a parameter holds after a list of assignments: the last value assigned to it if it is declared. -/
def afterSet (core : ParameterCore) (parameters : List RclParameter) (name : List UInt8) :
    Option ParameterValue :=
  (core.values.find? name).map fun old => ((lastValue name parameters).map fromRclValue).getD old

end ParameterCore

/-- The loop of `handle_set` when every event is written. -/
theorem SetHandler.exec_setting (env : ℕ → PublishEnv) (hw : ∀ i, (env i).written = true)
    (todo : List RclParameter) (results : List SetParametersResult) (core : ParameterCore) :
    ∃ core', exec env todo.length (.setting todo results) core =
        (.setting [] (results ++ todo.map core.resultFor), core') ∧
      ∀ n, core'.values.find? n = core.afterSet todo n := by
  induction todo generalizing env results core with
  | nil =>
    refine ⟨core, by simp [exec], ?_⟩
    intro n
    simp [ParameterCore.afterSet, lastValue]
  | cons p rest ih =>
    have hok := ParameterCore.set_ok (hw 0) p.name (fromRclValue p.value) core
    have hstored := ParameterCore.find?_set (env 0) p.name (fromRclValue p.value) core
    rcases hset : core.set (env 0) p.name (fromRclValue p.value) with ⟨r, core₁⟩
    rw [hset] at hok hstored
    cases hok
    -- the names that are declared stay the same, so the other entries are decided as they were
    have hdecl : ∀ n, core₁.values.find? n = none ↔ core.values.find? n = none := by
      intro n
      have := ParameterCore.set_declared (env 0) p.name (fromRclValue p.value) core n
      rwa [hset] at this
    have hresult : core₁.resultFor = core.resultFor := by
      funext q
      have hq : (core₁.values.find? q.name).isSome = (core.values.find? q.name).isSome := by
        rw [Bool.eq_iff_iff, Option.isSome_iff_ne_none, Option.isSome_iff_ne_none, ne_eq, ne_eq, hdecl]
      rw [ParameterCore.resultFor, ParameterCore.resultFor, hq]
    obtain ⟨core', hexec, hfind⟩ := ih (fun i => env (i+1)) (fun i => hw (i+1))
      (results ++ [core.resultFor p]) core₁
    refine ⟨core', ?_, ?_⟩
    · rw [List.length_cons, exec, SetHandler.next]
      dsimp only
      rw [hset]
      dsimp only
      rw [hresult, List.append_assoc, List.singleton_append] at hexec
      exact hexec
    · intro n
      rw [hfind, ParameterCore.afterSet, ParameterCore.afterSet, hstored, lastValue]
      by_cases hn : p.name = n
      · subst hn
        cases hcore : core.values.find? p.name with
        | none => simp
        | some old => cases lastValue p.name rest <;> simp
      · simp [hn, Ne.symm hn]

namespace ParameterCore

variable {core core' : ParameterCore}

/-- What `get_parameters` answers for one name. -/
def answer (core : ParameterCore) (name : List UInt8) : RclParameterValue :=
  match core.values.find? name with
  | some v => toRclValue v
  | none => {}

theorem handleGet_eq (names : List (List UInt8)) (core : ParameterCore) :
    core.handleGet names = names.map core.answer := rfl

/-- `get_parameter_types` and `describe_parameters` report the type of that answer. -/
theorem typeByte_eq_answer (core : ParameterCore) (name : List UInt8) :
    core.typeByte name = (core.answer name).type := by
  unfold typeByte answer
  cases core.values.find? name <;> rfl

end ParameterCore

/-- The service on a request payload: decode it into a fresh request and handle that. -/
def ParameterCore.serveSetParameters (env : ℕ → PublishEnv) (b : List UInt8) (core : ParameterCore) :
    Except Failure (SetHandler × ParameterCore) :=
  match setParametersRequestSchema.decode true b with
  | .ok (req, _) => .ok (core.handleSet env (requestParameters req))
  | .error e => .error e

/-- A request that decodes, and any reads after it: each name that was declared reads as the last value
the request gave it, encoded alike, and every other name stays undeclared. -/
theorem remote_set_then_get (core : ParameterCore) (env : ℕ → PublishEnv) (hw : ∀ i, (env i).written = true)
    (b : List UInt8) (req : setParametersRequestSchema.Val) (r : CdrReader)
    (hdec : setParametersRequestSchema.decode true b = .ok (req, r)) :
    ∃ results core', core.serveSetParameters env b = .ok (.setting [] results, core') ∧
      results.map SetParametersResult.successful =
        (requestParameters req).map (fun p => (core.values.find? p.name).isSome) ∧
      ∀ names : List (List UInt8), ∃ values, core'.handleGet names = values ∧ values.length = names.length ∧
        (∀ (i : ℕ) name (value : RclParameterValue), names[i]? = some name → values[i]? = some value →
          (core.values.find? name = none → value = {} ∧ core'.values.find? name = none) ∧
          ∀ old, core.values.find? name = some old → core'.values.find? name ≠ none ∧
            value.encode = ((lastValue name (requestParameters req)).getD (toRclValue old)).encode) ∧
        core'.handleGetTypes names = values.map RclParameterValue.type ∧
        (core'.handleDescribe names).map ParameterDescriptor.type = values.map RclParameterValue.type := by
  obtain ⟨core', hexec, hfind⟩ := SetHandler.exec_setting env hw (requestParameters req) [] core
  rw [List.nil_append] at hexec
  refine ⟨(requestParameters req).map core.resultFor, core', ?_, ?_, ?_⟩
  · rw [ParameterCore.serveSetParameters, hdec]
    exact congrArg Except.ok hexec
  · rw [List.map_map]
    rfl
  · intro names
    refine ⟨_, rfl, ?_, ?_, ?_, ?_⟩
    · rw [ParameterCore.handleGet_eq, List.length_map]
    · intro i name value hname hvalue
      rw [ParameterCore.handleGet_eq, List.getElem?_map, hname] at hvalue
      cases hvalue
      have hafter := hfind name
      refine ⟨?_, ?_⟩
      · intro hnone
        rw [ParameterCore.afterSet, hnone] at hafter
        exact ⟨by rw [ParameterCore.answer, hafter]; rfl, hafter⟩
      · intro old hold
        rw [ParameterCore.afterSet, hold] at hafter
        refine ⟨by rw [hafter]; nofun, ?_⟩
        rw [ParameterCore.answer, hafter]
        cases lastValue name (requestParameters req) with
        | none => rfl
        | some v =>
          change (toRclValue (fromRclValue v)).encode = v.encode
          rw [toRclValue_fromRclValue]
    · rw [ParameterCore.handleGetTypes, ParameterCore.handleGet_eq, List.map_map]
      exact List.map_congr_left fun name _ => core'.typeByte_eq_answer name
    · rw [ParameterCore.handleDescribe, ParameterCore.handleGet_eq, List.map_map, List.map_map]
      exact List.map_congr_left fun name _ => core'.typeByte_eq_answer name

/-- Every sequence in a request has elements that take up room. -/
theorem setParametersRequest_nonempty : setParametersRequestSchema.SeqElementsNonempty := by
  have hvalue : parameterValueSchema.SeqElementsNonempty := by
    simp [parameterValueSchema, Members.SeqElementsNonempty, RosType.SeqElementsNonempty,
      RosType.ElementNonempty]
  have hparameter : parameterSchema.SeqElementsNonempty := ⟨nofun, trivial, nofun, hvalue, trivial⟩
  exact ⟨fun _ => Members.encodesByte_cons (t := .string) _ trivial _, hparameter, trivial⟩

/-- `a` to the integer 7, and `b` to the integer 8. -/
def setTwoRequest : setParametersRequestSchema.Val :=
  (([([97], (toRclValue (toValue 7)).toVal, ()), ([98], (toRclValue (toValue 8)).toVal, ())] :
    List parameterSchema.Val), ())

theorem setTwoRequest_fits : setParametersRequestSchema.Fits StringFits setTwoRequest := by
  have hvalue : ∀ n, parameterValueSchema.Fits StringFits (toRclValue (toValue n)).toVal := by
    intro n
    have hstring : StringFits [] := (by decide : 1 < 2^32)
    have hseq : ∀ (T : Type) (ok : T → Prop), Shape.Fits ok .seq ([] : List T) := by
      intro T ok
      exact ⟨by simp, nofun⟩
    exact ⟨trivial, trivial, trivial, trivial, hstring, hseq _ _, hseq _ _, hseq _ _, hseq _ _, hseq _ _, trivial⟩
  have hname : ∀ c : UInt8, StringFits [c] := fun _ => (by decide : 2 < 2^32)
  refine ⟨⟨by decide, ?_⟩, trivial⟩
  intro e he
  rcases List.mem_cons.mp he with rfl | he
  · exact ⟨hname _, hvalue 7, trivial⟩
  · rw [List.mem_singleton.mp he]
    exact ⟨hname _, hvalue 8, trivial⟩

/-- Sent to a node that has declared `a` only, which is then asked for both. -/
theorem remote_set_then_get_two :
    ∃ results core', ((ParameterCore.new (text "/n")).assign [97] (toValue 1)).serveSetParameters
        (fun _ => ⟨0, true⟩) (setParametersRequestSchema.encode setTwoRequest) =
          .ok (.setting [] results, core') ∧
      results.map SetParametersResult.successful = [true, false] ∧
      ∃ value, core'.handleGet [[97], [98]] = [value, {}] ∧
        value.encode = (toRclValue (toValue 7)).encode := by
  have hdec := Members.decode_encode _ setParametersRequest_nonempty setTwoRequest setTwoRequest_fits []
    (by decide +kernel)
  rw [List.append_nil] at hdec
  obtain ⟨results, core', hserve, hresults, hget⟩ := remote_set_then_get
    ((ParameterCore.new (text "/n")).assign [97] (toValue 1)) (fun _ => ⟨0, true⟩) (fun _ => rfl) _ _ _ hdec
  refine ⟨results, core', hserve, hresults, ?_⟩
  obtain ⟨values, hvalues, hlen, hpos, -⟩ := hget [[97], [98]]
  match values, hlen with
  | [v, w], _ =>
    obtain ⟨-, hv⟩ := hpos 0 [97] v rfl rfl
    obtain ⟨hw, -⟩ := hpos 1 [98] w rfl rfl
    obtain ⟨rfl, -⟩ := hw rfl
    exact ⟨v, hvalues, (hv (toValue 1) rfl).2⟩

end Rcllite
