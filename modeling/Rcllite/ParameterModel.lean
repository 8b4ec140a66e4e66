import Mathlib.Data.Int.Notation
import Rcllite.Lib.AssocMap
import Rcllite.Lib.Transition

/-! `rcl::ParameterCore`: the parameter store, the events it publishes and the
handlers of the parameter services. Every function here is one critical section
under `mtx_`, except that a set request takes the mutex once for each of its
assignments. Strings are byte lists, `double` is a bit pattern. -/
namespace Rcllite

/-- `param::Type`, an enumeration over `uint8_t`: the cast from the wire lets
any byte in. -/
structure ParamType where
  byte : BitVec 8
deriving DecidableEq, Repr

namespace ParamType

def notSet : ParamType := ⟨0⟩
def integer : ParamType := ⟨2⟩

end ParamType

/-- `param::ParameterValue`. -/
structure ParameterValue where
  type : ParamType := .notSet
  boolValue : Bool := false
  integerValue : BitVec 64 := 0
  doubleValue : BitVec 64 := 0
  stringValue : List UInt8 := []
  byteArrayValue : List (BitVec 8) := []
  boolArrayValue : List Bool := []
  integerArrayValue : List (BitVec 64) := []
  doubleArrayValue : List (BitVec 64) := []
  stringArrayValue : List (List UInt8) := []
deriving DecidableEq, Repr

/-- `to_value(int64_t)`. -/
def toValue (v : BitVec 64) : ParameterValue := { type := .integer, integerValue := v }

/-- `rcl_interfaces::msg::ParameterValue`. -/
structure RclParameterValue where
  type : BitVec 8 := 0
  boolValue : Bool := false
  integerValue : BitVec 64 := 0
  doubleValue : BitVec 64 := 0
  stringValue : List UInt8 := []
  byteArrayValue : List (BitVec 8) := []
  boolArrayValue : List Bool := []
  integerArrayValue : List (BitVec 64) := []
  doubleArrayValue : List (BitVec 64) := []
  stringArrayValue : List (List UInt8) := []
deriving DecidableEq, Repr

def toRclValue (v : ParameterValue) : RclParameterValue where
  type := v.type.byte
  boolValue := v.boolValue
  integerValue := v.integerValue
  doubleValue := v.doubleValue
  stringValue := v.stringValue
  byteArrayValue := v.byteArrayValue
  boolArrayValue := v.boolArrayValue
  integerArrayValue := v.integerArrayValue
  doubleArrayValue := v.doubleArrayValue
  stringArrayValue := v.stringArrayValue

def fromRclValue (v : RclParameterValue) : ParameterValue where
  type := ⟨v.type⟩
  boolValue := v.boolValue
  integerValue := v.integerValue
  doubleValue := v.doubleValue
  stringValue := v.stringValue
  byteArrayValue := v.byteArrayValue
  boolArrayValue := v.boolArrayValue
  integerArrayValue := v.integerArrayValue
  doubleArrayValue := v.doubleArrayValue
  stringArrayValue := v.stringArrayValue

/-- `rcl_interfaces::msg::Parameter`. -/
structure RclParameter where
  name : List UInt8
  value : RclParameterValue
deriving DecidableEq, Repr

/-- `builtin_interfaces::msg::Time`. -/
structure Time where
  sec : BitVec 32
  nanosec : BitVec 32
deriving DecidableEq, Repr

/-- The stamp for a system clock that shows `now` nanoseconds. -/
def nowStamp (now : ℤ) : Time :=
  ⟨BitVec.ofInt 32 (now.tdiv 1000000000), BitVec.ofInt 32 (now.tmod 1000000000)⟩

/-- `rcl_interfaces::msg::ParameterEvent`. -/
structure ParameterEvent where
  stamp : Time
  node : List UInt8
  newParameters : List RclParameter := []
  changedParameters : List RclParameter := []
  deletedParameters : List RclParameter := []
deriving DecidableEq, Repr

/-- `rcl_interfaces::msg::SetParametersResult`. -/
structure SetParametersResult where
  successful : Bool := false
  reason : List UInt8 := []
deriving DecidableEq, Repr

/-- The text of a string literal. -/
def text (s : String) : List UInt8 := s.toUTF8.toList

/-- The `rcl::Error`s of this file, and the one `Publisher::publish` throws. -/
inductive ParameterError where
  | invalidArguments (message : List UInt8)
  | internalError (message : List UInt8)
deriving DecidableEq, Repr

/-- What one call to `publish` meets: the clock, and what `Writer::write`
returns. -/
structure PublishEnv where
  now : ℤ
  written : Bool

/-- `events` holds what was written to `/parameter_events`, oldest first. -/
structure ParameterCore where
  node : List UInt8
  values : AssocMap (List UInt8) ParameterValue
  events : List ParameterEvent

namespace ParameterCore

def new (node : List UInt8) : ParameterCore := ⟨node, .empty, []⟩

/-- `values_[name] = value`. -/
def assign (core : ParameterCore) (name : List UInt8) (value : ParameterValue) : ParameterCore :=
  { core with values := core.values.insert name value }

/-- The event that `publish_event_locked` fills in. -/
def event (core : ParameterCore) (now : ℤ) (name : List UInt8) (value : ParameterValue)
    (isNew : Bool) : ParameterEvent :=
  let p : RclParameter := ⟨name, toRclValue value⟩
  if isNew then { stamp := nowStamp now, node := core.node, newParameters := [p] }
  else { stamp := nowStamp now, node := core.node, changedParameters := [p] }

def publishEventLocked (env : PublishEnv) (name : List UInt8) (value : ParameterValue) (isNew : Bool)
    (core : ParameterCore) : Except ParameterError Unit × ParameterCore :=
  if env.written then
    (.ok (), { core with events := core.events ++ [core.event env.now name value isNew] })
  else (.error (.internalError (text "publish failed on /parameter_events")), core)

def declare (env : PublishEnv) (name : List UInt8) (defaultValue : ParameterValue)
    (core : ParameterCore) : Except ParameterError Unit × ParameterCore :=
  if name = [] then
    (.error (.invalidArguments (text "parameter name must not be empty")), core)
  else match core.values.find? name with
    | some _ => (.error (.invalidArguments (text "parameter already declared: " ++ name)), core)
    | none =>
      let core' := core.assign name defaultValue
      if defaultValue.type ≠ .notSet then core'.publishEventLocked env name defaultValue true
      else (.ok (), core')

def get (name : List UInt8) (core : ParameterCore) : Except ParameterError ParameterValue :=
  match core.values.find? name with
  | none => .error (.invalidArguments (text "parameter not declared: " ++ name))
  | some v => .ok v

def getOr (name : List UInt8) (core : ParameterCore) : Option ParameterValue :=
  core.values.find? name

def set (env : PublishEnv) (name : List UInt8) (value : ParameterValue) (core : ParameterCore) :
    Except ParameterError Bool × ParameterCore :=
  match core.values.find? name with
  | none => (.ok false, core)   -- undeclared parameters are rejected
  | some old =>
    let wasNotSet := decide (old.type = .notSet)
    let core' := core.assign name value
    if value.type ≠ .notSet then
      let r := core'.publishEventLocked env name value wasNotSet
      (r.1.map (fun _ => true), r.2)
    else (.ok true, core')

def handleGet (names : List (List UInt8)) (core : ParameterCore) : List RclParameterValue :=
  names.map fun name => match core.values.find? name with
    | some v => toRclValue v
    | none => {}

/-- One round of the checking loop of `handle_set_atomically`. -/
def checkOne (core : ParameterCore) (acc : Bool × List UInt8) (p : RclParameter) : Bool × List UInt8 :=
  match core.values.find? p.name with
  | some _ => acc
  | none => (false, acc.2 ++ (if acc.2 = [] then [] else text ", ") ++ p.name)

/-- The first critical section of `handle_set_atomically`: whether every name
is declared, and the names that are not as the reason lists them. -/
def checkDeclared (parameters : List RclParameter) (core : ParameterCore) : Bool × List UInt8 :=
  parameters.foldl core.checkOne (true, [])

end ParameterCore

/-- A set request under way. -/
inductive SetHandler where
  | setting (todo : List RclParameter) (results : List SetParametersResult)   -- `handle_set`
  | checking (parameters : List RclParameter)   -- `handle_set_atomically`, before its first section
  | applying (todo : List RclParameter)         -- `handle_set_atomically`, in its second loop
  | returned (result : SetParametersResult)     -- `handle_set_atomically` has its answer
  | raised (e : ParameterError)

namespace SetHandler

/-- The next critical section of a handler. -/
def next (env : PublishEnv) (core : ParameterCore) : SetHandler → Option (SetHandler × ParameterCore)
  | .setting (p :: todo) results =>
    match core.set env p.name (fromRclValue p.value) with
    | (.error e, core') => some (.raised e, core')
    | (.ok ok, core') =>
      let r : SetParametersResult := ⟨ok, if ok then [] else text "parameter not declared"⟩
      some (.setting todo (results ++ [r]), core')
  | .setting [] _ => none
  | .checking parameters =>
    match core.checkDeclared parameters with
    | (true, _) => some (.applying parameters, core)
    | (false, reason) => some (.returned ⟨false, text "parameters not declared: " ++ reason⟩, core)
  | .applying (p :: todo) =>
    match core.set env p.name (fromRclValue p.value) with
    | (.error e, core') => some (.raised e, core')
    | (.ok _, core') => some (.applying todo, core')
  | .applying [] => some (.returned ⟨true, []⟩, core)
  | .returned _ | .raised _ => none

/-- The assignment that the next critical section makes. -/
def assignment : SetHandler → Option (List UInt8 × ParameterValue)
  | .setting (p :: _) _ | .applying (p :: _) => some (p.name, fromRclValue p.value)
  | _ => none

end SetHandler

structure ParamState where
  core : ParameterCore
  handlers : List SetHandler

/-- The critical sections of the store. Reads carry what they return. -/
inductive ParamAction where
  | declare (env : PublishEnv) (name : List UInt8) (value : ParameterValue)
  | set (env : PublishEnv) (name : List UInt8) (value : ParameterValue)
  | get (name : List UInt8) (result : Except ParameterError ParameterValue)
  | getOr (name : List UInt8) (result : Option ParameterValue)
  | handleGet (names : List (List UInt8)) (values : List RclParameterValue)
  | startSet (parameters : List RclParameter)
  | startSetAtomically (parameters : List RclParameter)
  | handler (i : ℕ) (env : PublishEnv)

inductive ParamStep : ParamState → ParamAction → ParamState → Prop
  | declare {s : ParamState} (env : PublishEnv) (name : List UInt8) (value : ParameterValue) :
      ParamStep s (.declare env name value) { s with core := (s.core.declare env name value).2 }
  | set {s : ParamState} (env : PublishEnv) (name : List UInt8) (value : ParameterValue) :
      ParamStep s (.set env name value) { s with core := (s.core.set env name value).2 }
  | get {s : ParamState} (name : List UInt8) : ParamStep s (.get name (s.core.get name)) s
  | getOr {s : ParamState} (name : List UInt8) : ParamStep s (.getOr name (s.core.getOr name)) s
  | handleGet {s : ParamState} (names : List (List UInt8)) :
      ParamStep s (.handleGet names (s.core.handleGet names)) s
  | startSet {s : ParamState} (parameters : List RclParameter) :
      ParamStep s (.startSet parameters) { s with handlers := s.handlers ++ [.setting parameters []] }
  | startSetAtomically {s : ParamState} (parameters : List RclParameter) :
      ParamStep s (.startSetAtomically parameters)
        { s with handlers := s.handlers ++ [.checking parameters] }
  | handler {s : ParamState} (i : ℕ) (env : PublishEnv) {h h' : SetHandler} {core' : ParameterCore}
      (hi : s.handlers[i]? = some h) (hn : h.next env s.core = some (h', core')) :
      ParamStep s (.handler i env) ⟨core', s.handlers.set i h'⟩

/-- Local calls and service requests on one store, interleaved at their critical
sections. -/
def paramSystem (start : ParamState) : Transition.System ParamState ParamAction where
  init s := s = start
  step := ParamStep

end Rcllite
