import Rcllite.CdrPrim

/-! `rcl::CdrWriter`: a growing buffer whose alignment counts from the first
byte after the four-byte encapsulation header. -/
namespace Rcllite

/-- `(n - (offset % n)) % n`, the padding both ends of the wire compute. -/
def padding (n offset : ℕ) : ℕ := (n - offset % n) % n

theorem padding_lt (n offset : ℕ) (hn : 0 < n) : padding n offset < n := Nat.mod_lt _ hn

theorem padding_aligned (n offset : ℕ) (hn : 0 < n) : (offset + padding n offset) % n = 0 := by
  have hm := Nat.mod_lt offset hn
  unfold padding
  by_cases h0 : offset % n = 0
  · simp [h0]
  · rw [Nat.mod_eq_of_lt (by omega : n - offset % n < n)]
    have hsum : offset + (n - offset % n) = n*(offset/n + 1) := by
      have hd := Nat.div_add_mod offset n
      rw [Nat.mul_add, Nat.mul_one]
      omega
    rw [hsum, Nat.mul_mod_right]

/-- Alignment already reached needs no padding. -/
theorem padding_eq_zero (n offset : ℕ) (h : offset % n = 0) : padding n offset = 0 := by
  simp [padding, h]

theorem padding_one (offset : ℕ) : padding 1 offset = 0 := padding_eq_zero 1 offset (Nat.mod_one _)

/-- The encapsulation header is there from the constructor on. -/
structure CdrWriter where
  buf : List UInt8
  header_le : 4 ≤ buf.length

namespace CdrWriter

def new : CdrWriter := ⟨[0x00, 0x01, 0x00, 0x00], by decide⟩

def payload (w : CdrWriter) : List UInt8 := w.buf

def payloadOffset (w : CdrWriter) : ℕ := w.buf.length - 4

def writeBytes (w : CdrWriter) (data : List UInt8) : CdrWriter :=
  ⟨w.buf ++ data, by have := w.header_le; simp only [List.length_append]; omega⟩

def alignTo (w : CdrWriter) (n : ℕ) : CdrWriter :=
  w.writeBytes (List.replicate (padding n w.payloadOffset) 0)

def writeAligned (w : CdrWriter) (data : List UInt8) (alignment : ℕ) : CdrWriter :=
  (w.alignTo alignment).writeBytes data

/-- `write_aligned(&v, sizeof(v), sizeof(v))`, the body of every scalar writer. -/
def writeScalar (p : Prim) (v : p.Val) (w : CdrWriter) : CdrWriter :=
  w.writeAligned (p.toBytes v) p.sizeof

def writeBool (v : Bool) : CdrWriter → CdrWriter := writeScalar .bool v
def writeByte (v : BitVec 8) : CdrWriter → CdrWriter := writeScalar .byte v
def writeUint8 (v : BitVec 8) : CdrWriter → CdrWriter := writeScalar .uint8 v
def writeInt8 (v : BitVec 8) : CdrWriter → CdrWriter := writeScalar .int8 v
def writeChar (v : BitVec 8) : CdrWriter → CdrWriter := writeScalar .char v
def writeUint16 (v : BitVec 16) : CdrWriter → CdrWriter := writeScalar .uint16 v
def writeInt16 (v : BitVec 16) : CdrWriter → CdrWriter := writeScalar .int16 v
def writeUint32 (v : BitVec 32) : CdrWriter → CdrWriter := writeScalar .uint32 v
def writeInt32 (v : BitVec 32) : CdrWriter → CdrWriter := writeScalar .int32 v
def writeFloat32 (v : BitVec 32) : CdrWriter → CdrWriter := writeScalar .float32 v
def writeUint64 (v : BitVec 64) : CdrWriter → CdrWriter := writeScalar .uint64 v
def writeInt64 (v : BitVec 64) : CdrWriter → CdrWriter := writeScalar .int64 v
def writeFloat64 (v : BitVec 64) : CdrWriter → CdrWriter := writeScalar .float64 v

/-- `w.write_{PRIM[t][0]}(v)`: the writer the generator's table names. -/
def writePrim : (p : Prim) → p.Val → CdrWriter → CdrWriter
  | .bool => writeBool
  | .byte => writeByte
  | .char => writeChar
  | .float32 => writeFloat32
  | .float64 => writeFloat64
  | .int8 => writeInt8
  | .int16 => writeInt16
  | .int32 => writeInt32
  | .int64 => writeInt64
  | .uint8 => writeUint8
  | .uint16 => writeUint16
  | .uint32 => writeUint32
  | .uint64 => writeUint64

/-- The length on the wire counts the NUL and wraps like a `uint32_t` cast. -/
def writeString (s : List UInt8) (w : CdrWriter) : CdrWriter :=
  (w.writeUint32 (BitVec.ofNat 32 (s.length + 1))).writeBytes (s ++ [0])

theorem writePrim_eq_writeScalar (p : Prim) (v : p.Val) (w : CdrWriter) :
    writePrim p v w = writeScalar p v w := by
  cases p <;> rfl

@[ext] theorem ext {w w' : CdrWriter} (h : w.buf = w'.buf) : w = w' := by
  cases w; cases w'; cases h; rfl

@[simp] theorem writeBytes_buf (w : CdrWriter) (data : List UInt8) :
    (w.writeBytes data).buf = w.buf ++ data := rfl

@[simp] theorem alignTo_buf (w : CdrWriter) (n : ℕ) :
    (w.alignTo n).buf = w.buf ++ List.replicate (padding n w.payloadOffset) 0 := rfl

@[simp] theorem writeAligned_buf (w : CdrWriter) (data : List UInt8) (n : ℕ) :
    (w.writeAligned data n).buf =
      w.buf ++ (List.replicate (padding n w.payloadOffset) 0 ++ data) := by
  simp [writeAligned]

theorem writeScalar_buf (p : Prim) (v : p.Val) (w : CdrWriter) : (writeScalar p v w).buf =
    w.buf ++ (List.replicate (padding p.sizeof w.payloadOffset) 0 ++ p.toBytes v) :=
  writeAligned_buf w _ _

theorem writeUint32_buf (v : BitVec 32) (w : CdrWriter) : (writeUint32 v w).buf =
    w.buf ++ (List.replicate (padding 4 w.payloadOffset) 0 ++ LittleEndian.toBytes 4 v.toNat) :=
  writeScalar_buf .uint32 v w

theorem writeUint64_buf (v : BitVec 64) (w : CdrWriter) : (writeUint64 v w).buf =
    w.buf ++ (List.replicate (padding 8 w.payloadOffset) 0 ++ LittleEndian.toBytes 8 v.toNat) :=
  writeScalar_buf .uint64 v w

theorem writeInt64_buf (v : BitVec 64) (w : CdrWriter) : (writeInt64 v w).buf =
    w.buf ++ (List.replicate (padding 8 w.payloadOffset) 0 ++ LittleEndian.toBytes 8 v.toNat) :=
  writeScalar_buf .int64 v w

theorem writeString_buf (s : List UInt8) (w : CdrWriter) : (writeString s w).buf =
    w.buf ++ (List.replicate (padding 4 w.payloadOffset) 0 ++
      (LittleEndian.toBytes 4 (BitVec.ofNat 32 (s.length + 1)).toNat ++ (s ++ [0]))) := by
  rw [writeString, writeBytes_buf, writeUint32_buf, List.append_assoc, List.append_assoc]

end CdrWriter

end Rcllite
