import Mathlib.Data.UInt
import Rcllite.Lib.SortBy
import Rcllite.ParameterModel

/-! The other handlers of the parameter services, the set requests as a whole,
and the typed access of `Node::get_parameter`. A set request is served by running its
critical sections one after the other; `SetHandler.exec` does that for a handler
that has the store to itself. -/
namespace Rcllite

/-- The fields of `rcl_interfaces::msg::ParameterDescriptor` that are filled in. -/
structure ParameterDescriptor where
  name : List UInt8
  type : BitVec 8
  dynamicTyping : Bool
deriving DecidableEq, Repr

/-- `rcl_interfaces::msg::ListParametersResult`. -/
structure ListParametersResult where
  names : List (List UInt8)
  prefixes : List (List UInt8)
deriving DecidableEq, Repr

/-- The type byte that `handle_describe` and `handle_get_types` report. -/
def ParameterCore.typeByte (core : ParameterCore) (name : List UInt8) : BitVec 8 :=
  match core.values.find? name with
  | some v => v.type.byte
  | none => ParamType.notSet.byte

def ParameterCore.handleDescribe (names : List (List UInt8)) (core : ParameterCore) :
    List ParameterDescriptor :=
  names.map fun name => ⟨name, core.typeByte name, false⟩

def ParameterCore.handleGetTypes (names : List (List UInt8)) (core : ParameterCore) : List (BitVec 8) :=
  names.map core.typeByte

section Listing

/-- `'.'`. -/
def dot : UInt8 := 0x2e

/-- The loop of `tokenize` with `cur` read since the last dot. At the end of the
input `std::getline` fails when there is nothing left to extract, so an empty last
token is dropped. -/
def tokenizeFrom (cur : List UInt8) : List UInt8 → List (List UInt8)
  | [] => if cur = [] then [] else [cur]
  | c :: cs => if c = dot then cur :: tokenizeFrom [] cs else tokenizeFrom (cur ++ [c]) cs

/-- `"a.b.c"` gives `a`, `b` and `c`. -/
def tokenize (name : List UInt8) : List (List UInt8) := tokenizeFrom [] name

/-- `depth == 0 || count <= depth`, where `0` is `DEPTH_RECURSIVE`. -/
def withinDepth (depth : BitVec 64) (count : ℕ) : Bool := depth = 0 || count ≤ depth.toNat

/-- The loop over the requested prefixes: the first one that the name extends
decides. -/
def matchPrefix (depth : BitVec 64) (parts : List (List UInt8)) : List (List UInt8) → Bool
  | [] => false
  | pre :: rest =>
    let pp := tokenize pre
    if parts.length < pp.length then matchPrefix depth parts rest
    -- `break`, whether `ok` is set or not
    else if pp = parts.take pp.length then withinDepth depth (parts.length - pp.length)
    else matchPrefix depth parts rest

/-- Whether `handle_list` lists a declared name. -/
def listed (prefixes : List (List UInt8)) (depth : BitVec 64) (name : List UInt8) : Bool :=
  let parts := tokenize name
  if prefixes ≠ [] then matchPrefix depth parts prefixes else withinDepth depth parts.length

/-- `name.substr(0, dot)` for every dot that follows `before`. -/
def dotPrefixesFrom (before : List UInt8) : List UInt8 → List (List UInt8)
  | [] => []
  | c :: cs =>
    if c = dot then before :: dotPrefixesFrom (before ++ [c]) cs else dotPrefixesFrom (before ++ [c]) cs

def ParameterCore.handleList (prefixes : List (List UInt8)) (depth : BitVec 64) (core : ParameterCore) :
    ListParametersResult :=
  let matched := SortBy.sortBy id ((core.values.entries.map Prod.fst).filter (listed prefixes depth))
  { names := matched
    prefixes := SortBy.toSet id (matched.flatMap (dotPrefixesFrom [])) }

end Listing

namespace SetHandler

/-- At most `k` critical sections of a handler that nothing runs in between; `env i` is what the `i`-th
of them meets. -/
def exec : (env : ℕ → PublishEnv) → (k : ℕ) → SetHandler → ParameterCore → SetHandler × ParameterCore
  | _, 0, h, core => (h, core)
  | env, k+1, h, core =>
    match h.next (env 0) core with
    | none => (h, core)
    | some (h', core') => exec (fun i => env (i+1)) k h' core'

end SetHandler

/-- The last value that a list of assignments gives to `name`. -/
def lastValue (name : List UInt8) : List RclParameter → Option RclParameterValue
  | [] => none
  | p :: rest => (lastValue name rest).or (if p.name = name then some p.value else none)

/-- `handle_set`: it has returned its results at `.setting [] results`. -/
def ParameterCore.handleSet (env : ℕ → PublishEnv) (parameters : List RclParameter) (core : ParameterCore) :
    SetHandler × ParameterCore :=
  SetHandler.exec env parameters.length (.setting parameters []) core

/-- `handle_set_atomically`: one section for the check, one for each assignment,
and the return. -/
def ParameterCore.handleSetAtomically (env : ℕ → PublishEnv) (parameters : List RclParameter)
    (core : ParameterCore) : SetHandler × ParameterCore :=
  SetHandler.exec env (parameters.length + 2) (.checking parameters) core

namespace ParamType

def bool : ParamType := ⟨1⟩
def double : ParamType := ⟨3⟩
def string : ParamType := ⟨4⟩

end ParamType

/-- The types that `value_as` is specialised for. -/
inductive CppType where
  | bool | int64 | double | string
deriving DecidableEq, Repr

namespace CppType

def Val : CppType → Type
  | .bool => Bool
  | .int64 | .double => BitVec 64
  | .string => List UInt8

/-- The tag that `to_value` puts on such a value. -/
def type : CppType → ParamType
  | .bool => .bool
  | .int64 => .integer
  | .double => .double
  | .string => .string

/-- `value_as<T>`, which does not look at the tag. -/
def valueAs : (t : CppType) → ParameterValue → t.Val
  | .bool, p => p.boolValue
  | .int64, p => p.integerValue
  | .double, p => p.doubleValue
  | .string, p => p.stringValue

end CppType

/-- `Node::get_parameter<T>`. -/
def ParameterCore.getParameter (t : CppType) (name : List UInt8) (core : ParameterCore) :
    Except ParameterError t.Val :=
  match core.getOr name with
  | none => .error (.invalidArguments (text "parameter not declared: " ++ name))
  | some v => .ok (t.valueAs v)

theorem ParameterCore.typeByte_eq_get (core : ParameterCore) (name : List UInt8) :
    core.handleGetTypes [name] = (core.handleGet [name]).map RclParameterValue.type := by
  unfold handleGetTypes handleGet typeByte
  cases h : core.values.find? name with
  | some v => simp [h, toRclValue]
  | none => simp [h, ParamType.notSet]

end Rcllite
