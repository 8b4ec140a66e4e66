import Rcllite.Lib.LittleEndian

/-! The primitive types of the message generator and their object
representation on a little-endian host. Floats are carried as bit patterns. -/
namespace Rcllite

inductive Prim where
  | bool | byte | char | float32 | float64 | int8 | int16 | int32 | int64
  | uint8 | uint16 | uint32 | uint64
deriving DecidableEq, Repr

namespace Prim

/-- The wire alignment column of the `PRIM` table. -/
def align : Prim → ℕ
  | .bool | .byte | .char | .int8 | .uint8 => 1
  | .int16 | .uint16 => 2
  | .float32 | .int32 | .uint32 => 4
  | .float64 | .int64 | .uint64 => 8

/-- `sizeof` of the C++ type that `CPP_PRIM` names. -/
def sizeof : Prim → ℕ
  | .bool => 1
  | .byte | .char | .uint8 => 1
  | .int8 => 1
  | .int16 | .uint16 => 2
  | .int32 | .uint32 => 4
  | .float32 => 4
  | .int64 | .uint64 => 8
  | .float64 => 8

theorem align_eq_sizeof (p : Prim) : p.align = p.sizeof := by
  cases p <;> rfl

theorem sizeof_pos (p : Prim) : 0 < p.sizeof := by
  cases p <;> decide

theorem sizeof_le (p : Prim) : p.sizeof ≤ 8 := by
  cases p <;> decide

/-- Values of the C++ type, a machine word for everything but `bool`. -/
def Val : Prim → Type
  | .bool => Bool
  | .byte | .char | .int8 | .uint8 => BitVec 8
  | .int16 | .uint16 => BitVec 16
  | .float32 | .int32 | .uint32 => BitVec 32
  | .float64 | .int64 | .uint64 => BitVec 64

def zero : (p : Prim) → p.Val
  | .bool => false
  | .byte | .char | .int8 | .uint8 => 0#8
  | .int16 | .uint16 => 0#16
  | .float32 | .int32 | .uint32 => 0#32
  | .float64 | .int64 | .uint64 => 0#64

/-- The bytes a `memcpy` from the object copies. -/
def toBytes : (p : Prim) → p.Val → List UInt8
  | .bool, (b : Bool) => [cond b 1 0]
  | .byte, v | .char, v | .int8, v | .uint8, v => LittleEndian.toBytes 1 (BitVec.toNat v)
  | .int16, v | .uint16, v => LittleEndian.toBytes 2 (BitVec.toNat v)
  | .float32, v | .int32, v | .uint32, v => LittleEndian.toBytes 4 (BitVec.toNat v)
  | .float64, v | .int64, v | .uint64, v => LittleEndian.toBytes 8 (BitVec.toNat v)

/-- The object a `memcpy` into it leaves; any nonzero byte is a true `bool`. -/
def ofBytes : (p : Prim) → List UInt8 → p.Val
  | .bool, bs => LittleEndian.ofBytes bs != 0
  | .byte, bs | .char, bs | .int8, bs | .uint8, bs => BitVec.ofNat 8 (LittleEndian.ofBytes bs)
  | .int16, bs | .uint16, bs => BitVec.ofNat 16 (LittleEndian.ofBytes bs)
  | .float32, bs | .int32, bs | .uint32, bs => BitVec.ofNat 32 (LittleEndian.ofBytes bs)
  | .float64, bs | .int64, bs | .uint64, bs => BitVec.ofNat 64 (LittleEndian.ofBytes bs)

@[simp] theorem toBytes_length (p : Prim) (v : p.Val) : (p.toBytes v).length = p.sizeof := by
  cases p <;> simp [toBytes, sizeof]

theorem word_ofBytes_toBytes {w k : ℕ} (hw : 2^w = 256^k) (v : BitVec w) :
    BitVec.ofNat w (LittleEndian.ofBytes (LittleEndian.toBytes k v.toNat)) = v := by
  have hv : v.toNat < 256^k := hw ▸ v.isLt
  rw [LittleEndian.ofBytes_toBytes, Nat.mod_eq_of_lt hv, BitVec.ofNat_toNat, BitVec.setWidth_eq]

/-- Copying an object out and back is the identity. -/
theorem ofBytes_toBytes (p : Prim) (v : p.Val) : p.ofBytes (p.toBytes v) = v := by
  cases p
  case bool =>
    change Bool at v
    cases v <;> rfl
  case byte | char | int8 | uint8 =>
    exact word_ofBytes_toBytes (k := 1) (by norm_num) v
  case int16 | uint16 =>
    exact word_ofBytes_toBytes (k := 2) (by norm_num) v
  case float32 | int32 | uint32 =>
    exact word_ofBytes_toBytes (k := 4) (by norm_num) v
  case float64 | int64 | uint64 =>
    exact word_ofBytes_toBytes (k := 8) (by norm_num) v

end Prim

end Rcllite
