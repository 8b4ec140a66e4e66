import Rcllite.CdrWriter
import Rcllite.Lib.Interaction

/-! `rcl::CdrReader`. Positions and sizes are 64-bit `size_t` values, so every
sum and product the code forms is taken modulo `2^64`; a copy that leaves the
buffer is a separate outcome, `outOfBounds`, which no check turns into an
error. -/
namespace Rcllite
open Interaction

/-- How a decoding run can end without accepting. -/
inductive Failure where
  | returnFalse
  | error (message : String)
  | outOfBounds
deriving DecidableEq, Repr

def sizeT (n : ℕ) : ℕ := n % 2^64

theorem sizeT_of_lt {n : ℕ} (h : n < 2^64) : sizeT n = n := Nat.mod_eq_of_lt h

/-- `buf` holds the `size_` bytes at `buf_`. -/
structure CdrReader where
  buf : List UInt8
  pos : ℕ
deriving DecidableEq, Repr

namespace CdrReader

def new (data : List UInt8) : Except Failure CdrReader :=
  match data with
  | b0 :: b1 :: _ :: _ :: _ =>
    let id := (b0.toNat <<< 8 ||| b1.toNat) % 2^16
    if id ≠ 0x0001 then
      .error (.error "unsupported CDR encapsulation (expected CDR_LE)")
    else .ok ⟨data, 4⟩
  | _ => .error (.error "CDR buffer too small for encapsulation header")

def remaining (r : CdrReader) : ℕ := sizeT (r.buf.length + 2^64 - r.pos)

def payloadOffset (r : CdrReader) : ℕ := sizeT (r.pos + 2^64 - 4)

/-- `memcpy` of `n` bytes from the current position. -/
def copy (r : CdrReader) (n : ℕ) : Except Failure (List UInt8) :=
  if r.pos + n ≤ r.buf.length then .ok ((r.buf.drop r.pos).take n) else .error .outOfBounds

def alignTo (n : ℕ) (r : CdrReader) : Except Failure (Unit × CdrReader) :=
  let pad := padding n r.payloadOffset
  if sizeT (r.pos + pad) > r.buf.length then
    .error (.error "CDR alignment runs past end of buffer")
  else .ok ((), { r with pos := sizeT (r.pos + pad) })

def readBytes (size : ℕ) (r : CdrReader) : Except Failure (List UInt8 × CdrReader) :=
  if sizeT (r.pos + size) > r.buf.length then
    .error (.error "CDR read past end of buffer")
  else (r.copy size).map (fun bs => (bs, { r with pos := sizeT (r.pos + size) }))

/-- `read_string` once its length is known. -/
def readChars (len : ℕ) (r : CdrReader) : Except Failure (List UInt8 × CdrReader) :=
  if len = 0 ∨ sizeT (r.pos + len) > r.buf.length then
    .error (.error "invalid string length in CDR stream")
  else (r.copy (len - 1)).map (fun bs => (bs, { r with pos := sizeT (r.pos + len) }))

/-- `if (n > r.remaining()) { return false; }` -/
def guardRemaining (n : ℕ) (r : CdrReader) : Except Failure (Unit × CdrReader) :=
  if n > r.remaining then .error .returnFalse else .ok ((), r)

end CdrReader

/-- The operations emitted code makes on a reader. `readBytes` keeps the two
factors of its `count * sizeof(T)` argument. -/
inductive ReadOp where
  | alignTo (n : ℕ)
  | readBytes (count elem : ℕ)
  | readChars (len : ℕ)
  | guardRemaining (n : ℕ)
deriving DecidableEq, Repr

def readSig : Signature where
  Op := ReadOp
  Reply
    | .alignTo _ => Unit
    | .readBytes _ _ => List UInt8
    | .readChars _ => List UInt8
    | .guardRemaining _ => Unit

/-- The reader; `guarded = false` gives the same reader without the length
guards. -/
def readStep : Bool → Handler readSig Failure CdrReader
  | _, .alignTo n, r => r.alignTo n
  | _, .readBytes count elem, r => r.readBytes (sizeT (count*elem))
  | _, .readChars len, r => r.readChars len
  | true, .guardRemaining n, r => r.guardRemaining n
  | false, .guardRemaining _, r => .ok ((), r)

abbrev Decoder := Prog readSig Failure

namespace Decoder

def alignTo (n : ℕ) : Decoder Unit := Prog.op (S := readSig) (ReadOp.alignTo n)
def readBytes (count elem : ℕ) : Decoder (List UInt8) :=
  Prog.op (S := readSig) (ReadOp.readBytes count elem)
def readChars (len : ℕ) : Decoder (List UInt8) := Prog.op (S := readSig) (ReadOp.readChars len)
def guardRemaining (n : ℕ) : Decoder Unit := Prog.op (S := readSig) (ReadOp.guardRemaining n)

/-- `read_aligned<T>`, the body of every scalar reader. -/
def readAligned (p : Prim) : Decoder p.Val := do
  alignTo p.sizeof
  let bs ← readBytes 1 p.sizeof
  pure (p.ofBytes bs)

def readBool : Decoder Bool := readAligned .bool
def readByte : Decoder (BitVec 8) := readAligned .byte
def readUint8 : Decoder (BitVec 8) := readAligned .uint8
def readInt8 : Decoder (BitVec 8) := readAligned .int8
def readChar : Decoder (BitVec 8) := readAligned .char
def readUint16 : Decoder (BitVec 16) := readAligned .uint16
def readInt16 : Decoder (BitVec 16) := readAligned .int16
def readUint32 : Decoder (BitVec 32) := readAligned .uint32
def readInt32 : Decoder (BitVec 32) := readAligned .int32
def readFloat32 : Decoder (BitVec 32) := readAligned .float32
def readUint64 : Decoder (BitVec 64) := readAligned .uint64
def readInt64 : Decoder (BitVec 64) := readAligned .int64
def readFloat64 : Decoder (BitVec 64) := readAligned .float64

/-- `r.read_{PRIM[t][0]}()`. -/
def readPrim : (p : Prim) → Decoder p.Val
  | .bool => readBool
  | .byte => readByte
  | .char => readChar
  | .float32 => readFloat32
  | .float64 => readFloat64
  | .int8 => readInt8
  | .int16 => readInt16
  | .int32 => readInt32
  | .int64 => readInt64
  | .uint8 => readUint8
  | .uint16 => readUint16
  | .uint32 => readUint32
  | .uint64 => readUint64

def readString : Decoder (List UInt8) := do
  let len ← readUint32
  readChars len.toNat

theorem run_alignTo (g : Bool) (n : ℕ) (r : CdrReader) : (alignTo n).run (readStep g) r = r.alignTo n :=
  Prog.run_op _ _ _

theorem run_readBytes (g : Bool) (count elem : ℕ) (r : CdrReader) :
    (readBytes count elem).run (readStep g) r = r.readBytes (sizeT (count*elem)) :=
  Prog.run_op _ _ _

theorem run_readChars (g : Bool) (len : ℕ) (r : CdrReader) :
    (readChars len).run (readStep g) r = r.readChars len :=
  Prog.run_op _ _ _

theorem run_guardRemaining (n : ℕ) (r : CdrReader) :
    (guardRemaining n).run (readStep true) r = r.guardRemaining n :=
  Prog.run_op _ _ _

theorem run_guardRemaining_false (n : ℕ) (r : CdrReader) :
    (guardRemaining n).run (readStep false) r = .ok ((), r) :=
  Prog.run_op _ _ _

theorem readPrim_eq_readAligned (p : Prim) : readPrim p = readAligned p := by
  cases p <;> rfl

end Decoder

end Rcllite
