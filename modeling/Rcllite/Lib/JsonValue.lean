import Mathlib.Algebra.Order.Ring.Int
import Mathlib.Algebra.Order.Ring.Nat
import Mathlib.Data.Int.Notation
import Mathlib.Tactic.Common

/-! JSON values and the accessors of `nlohmann::json`, which raise when a value has another type than the
one asked for. Objects are listed in the order they are iterated in. -/
namespace JsonValue

inductive Value where
  | null
  | boolean (b : Bool)
  | integer (n : ℤ)
  | float (bits : BitVec 64)
  | string (s : List UInt8)
  | array (elements : List Value)
  | object (members : List (List UInt8 × Value))

/-- What `type_name` tells apart. -/
inductive Kind where
  | null | boolean | number | string | array | object
deriving DecidableEq, Repr

inductive AccessError where
  /-- 302: the value is not of the type it is read as. -/
  | notOfType (wanted found : Kind)
  /-- 304 and 306: `at` or `value` of something that is no object. -/
  | noObject (found : Kind)
  /-- 403: no member of that name. -/
  | outOfRange (key : List UInt8)
deriving DecidableEq, Repr

/-- A number as it is stored: an integer or the bits of a `double`. -/
inductive Number where
  | integer (n : ℤ)
  | float (bits : BitVec 64)
deriving DecidableEq, Repr

namespace Value

def kind : Value → Kind
  | .null => .null
  | .boolean _ => .boolean
  | .integer _ | .float _ => .number
  | .string _ => .string
  | .array _ => .array
  | .object _ => .object

def members? : Value → Option (List (List UInt8 × Value))
  | .object members => some members
  | _ => none

def find? (v : Value) (key : List UInt8) : Option Value := v.members?.bind fun members => members.lookup key

def contains (v : Value) (key : List UInt8) : Bool := (v.find? key).isSome

/-- `v.at(key)` -/
def fetch (v : Value) (key : List UInt8) : Except AccessError Value :=
  match v.members? with
  | none => .error (.noObject v.kind)
  | some members =>
    match members.lookup key with
    | some x => .ok x
    | none => .error (.outOfRange key)

/-- `get<std::string>` -/
def getString : Value → Except AccessError (List UInt8)
  | .string s => .ok s
  | v => .error (.notOfType .string v.kind)

/-- `get<double>` and `get<size_t>`, before the number is converted. -/
def getNumber : Value → Except AccessError Number
  | .integer n => .ok (.integer n)
  | .float bits => .ok (.float bits)
  | v => .error (.notOfType .number v.kind)

/-- `v.value(key, otherwise)` -/
def valueOr {α : Type} (get : Value → Except AccessError α) (v : Value) (key : List UInt8) (otherwise : α) :
    Except AccessError α :=
  match v.members? with
  | none => .error (.noObject v.kind)
  | some members =>
    match members.lookup key with
    | some x => get x
    | none => .ok otherwise

/-- What a range-for over the value visits: nothing in `null`, and any other scalar once. -/
def elements : Value → List Value
  | .null => []
  | .array xs => xs
  | .object members => members.map Prod.snd
  | v => [v]

end Value

namespace Number

/-- `x > 0.0` -/
def positive : Number → Bool
  | .integer n => decide (0 < n)
  | .float bits =>
    -- no sign, not zero, and not a NaN
    decide (bits.toNat < 2 ^ 63) && decide (0 < bits.toNat) && decide (bits.toNat ≤ 0x7ff0000000000000)

/-- The integer part of a `double`, as far as it has one. -/
def truncate (bits : BitVec 64) : ℕ :=
  let exponent := bits.toNat / 2 ^ 52 % 2 ^ 11
  let fraction := 2 ^ 52 + bits.toNat % 2 ^ 52
  if 1075 ≤ exponent then fraction * 2 ^ (exponent - 1075) else fraction / 2 ^ (1075 - exponent)

/-- `static_cast<size_t>` -/
def toSize : Number → ℕ
  | .integer n => (n % 2 ^ 64).toNat
  | .float bits => truncate bits % 2 ^ 64

end Number

end JsonValue
