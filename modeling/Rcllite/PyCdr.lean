import Mathlib.Data.Int.Notation
import Rcllite.Lib.Interaction
import Rcllite.Lib.LittleEndian

/-! `_CdrWriter` and `_CdrReader` of `pyrcllite.messages`, with the parts of
Python they rest on: unbounded integers, `str` as code points, `struct` and the
UTF-8 codec. A `float` is its bit pattern. -/
namespace Rcllite.Py
open Interaction

inductive PyError where
  | valueError (message : String)
  | unicodeEncodeError
  | unicodeDecodeError
  | structError
deriving DecidableEq, Repr

/-- `except ValueError` catches it; both Unicode errors are subclasses. -/
def PyError.IsValueError : PyError → Prop
  | .valueError _ | .unicodeEncodeError | .unicodeDecodeError => True
  | .structError => False

/-- A code point of a `str`. Unlike a `Char` it may be a lone surrogate. -/
structure CodePoint where
  val : ℕ
  lt : val < 0x110000
deriving DecidableEq

namespace CodePoint

def toChar? (c : CodePoint) : Option Char :=
  if h : c.val.isValidChar then some (Char.ofNatAux c.val h) else none

def ofChar (c : Char) : CodePoint where
  val := c.toNat
  lt := by
    have := c.valid
    simp only [UInt32.isValidChar, Nat.isValidChar] at this
    change c.val.toNat < _
    omega

@[simp] theorem toChar?_ofChar (c : Char) : (ofChar c).toChar? = some c := by
  have h : (ofChar c).val.isValidChar := c.valid
  rw [toChar?, dif_pos h]
  rfl

end CodePoint

abbrev PyStr := List CodePoint

/-- `value.encode("utf-8")`, which refuses surrogates. -/
def encodeUtf8 (s : PyStr) : Except PyError (List UInt8) :=
  match s.mapM CodePoint.toChar? with
  | some cs => .ok (cs.flatMap String.utf8EncodeChar)
  | none => .error .unicodeEncodeError

/-- `raw.decode("utf-8")`. -/
def decodeUtf8 (raw : List UInt8) : Except PyError PyStr :=
  match raw.toByteArray.utf8Decode? with
  | some cs => .ok (cs.toList.map CodePoint.ofChar)
  | none => .error .unicodeDecodeError

/-- The integer formats the codec hands to `struct`, little-endian. -/
inductive IntFormat where
  | B | i | I
deriving DecidableEq, Repr

namespace IntFormat

def size : IntFormat → ℕ
  | .B => 1
  | .i | .I => 4

def InRange : IntFormat → ℤ → Prop
  | .B, n => 0 ≤ n ∧ n < 0x100
  | .i, n => -0x80000000 ≤ n ∧ n < 0x80000000
  | .I, n => 0 ≤ n ∧ n < 0x100000000

instance (f : IntFormat) (n : ℤ) : Decidable (f.InRange n) :=
  match f with
  | .B => inferInstanceAs (Decidable (0 ≤ n ∧ n < 0x100))
  | .i => inferInstanceAs (Decidable (-0x80000000 ≤ n ∧ n < 0x80000000))
  | .I => inferInstanceAs (Decidable (0 ≤ n ∧ n < 0x100000000))

/-- `struct.pack`. -/
def pack (f : IntFormat) (n : ℤ) : Except PyError (List UInt8) :=
  if f.InRange n then .ok (LittleEndian.toBytes f.size (n % (256^f.size : ℕ)).toNat)
  else .error .structError

/-- `struct.unpack` of `size` bytes. -/
def unpack : IntFormat → List UInt8 → ℤ
  | .i, bs => Int.bmod (LittleEndian.ofBytes bs) (2^32)
  | .B, bs | .I, bs => LittleEndian.ofBytes bs

end IntFormat

/-- `struct.pack(f"<{len(values)}d", *values)`. -/
def packDoubles (values : List (BitVec 64)) : List UInt8 :=
  values.flatMap (fun v => LittleEndian.toBytes 8 v.toNat)

/-- `list(struct.unpack(f"<{count}d", raw))` of `8*count` bytes. -/
def unpackDoubles (count : ℕ) (raw : List UInt8) : List (BitVec 64) :=
  (LittleEndian.blocks 8 count raw).map (fun bs => BitVec.ofNat 64 (LittleEndian.ofBytes bs))

/-- `-(pos - 4) % alignment`, where `%` rounds towards minus infinity. -/
def padding (alignment pos : ℕ) : ℕ := (-((pos : ℤ) - 4) % alignment).toNat

structure CdrWriter where
  buf : List UInt8

namespace CdrWriter

def new : CdrWriter := ⟨[0x00, 0x01, 0x00, 0x00]⟩

def payload (w : CdrWriter) : List UInt8 := w.buf

/-- `self.buf += data`. -/
def append (w : CdrWriter) (data : List UInt8) : CdrWriter := ⟨w.buf ++ data⟩

def pad (alignment : ℕ) (w : CdrWriter) : CdrWriter :=
  w.append (List.replicate (padding alignment w.buf.length) 0)

def boolean (value : Bool) (w : CdrWriter) : Except PyError CdrWriter :=
  .ok (w.append (if value then [1] else [0]))

def packed (f : IntFormat) (value : ℤ) (w : CdrWriter) : Except PyError CdrWriter :=
  (f.pack value).map w.append

def uint8 (value : ℤ) (w : CdrWriter) : Except PyError CdrWriter := packed .B value w
def int32 (value : ℤ) (w : CdrWriter) : Except PyError CdrWriter := packed .i value (w.pad 4)
def uint32 (value : ℤ) (w : CdrWriter) : Except PyError CdrWriter := packed .I value (w.pad 4)

def float64 (value : BitVec 64) (w : CdrWriter) : Except PyError CdrWriter :=
  .ok ((w.pad 8).append (packDoubles [value]))

def string (value : PyStr) (w : CdrWriter) : Except PyError CdrWriter := do
  let raw ← encodeUtf8 value
  let w ← w.uint32 (raw.length + 1)
  pure (w.append (raw ++ [0]))

def byteSequence (value : List UInt8) (w : CdrWriter) : Except PyError CdrWriter := do
  let w ← (w.pad 4).uint32 value.length
  pure (w.append value)

/-- `if values:`, pad and pack. -/
def appendDoubles (values : List (BitVec 64)) (w : CdrWriter) : CdrWriter :=
  if values = [] then w else (w.pad 8).append (packDoubles values)

def doubleSequence (values : List (BitVec 64)) (w : CdrWriter) : Except PyError CdrWriter := do
  let w ← (w.pad 4).uint32 values.length
  pure (w.appendDoubles values)

def doubles (values : List (BitVec 64)) (w : CdrWriter) : Except PyError CdrWriter :=
  .ok (w.appendDoubles values)

end CdrWriter

structure CdrReader where
  data : List UInt8
  pos : ℕ

namespace CdrReader

def new (data : List UInt8) : Except PyError CdrReader :=
  if data.length < 4 ∨ data[0]? ≠ some 0 ∨ data[1]? ≠ some 1 then
    .error (.valueError "not a CDR-LE buffer (expected 00 01 encapsulation header)")
  else .ok ⟨data, 4⟩

def pad (alignment : ℕ) (r : CdrReader) : Except PyError (Unit × CdrReader) :=
  let pos := r.pos + padding alignment r.pos
  if pos > r.data.length then .error (.valueError "CDR alignment runs past end of buffer")
  else .ok ((), { r with pos := pos })

def take (size : ℕ) (r : CdrReader) : Except PyError (List UInt8 × CdrReader) :=
  if r.pos + size > r.data.length then .error (.valueError "CDR read past end of buffer")
  else .ok ((r.data.drop r.pos).take size, { r with pos := r.pos + size })

end CdrReader

inductive PyOp where
  | pad (alignment : ℕ)
  | take (size : ℕ)

def pySig : Signature where
  Op := PyOp
  Reply
    | .pad _ => Unit
    | .take _ => List UInt8

def pyStep : Handler pySig PyError CdrReader
  | .pad alignment, r => r.pad alignment
  | .take size, r => r.take size

/-- Code that calls `_pad` and `_take`, and may raise. -/
abbrev Decoder := Prog pySig PyError

namespace Decoder

def pad (alignment : ℕ) : Decoder Unit := Prog.op (S := pySig) (PyOp.pad alignment)
def take (size : ℕ) : Decoder (List UInt8) := Prog.op (S := pySig) (PyOp.take size)

def boolean : Decoder Bool := do
  let raw ← take 1
  pure (raw != [0])

def unpacked (f : IntFormat) : Decoder ℤ := do
  let raw ← take f.size
  pure (f.unpack raw)

def uint8 : Decoder ℤ := unpacked .B

def int32 : Decoder ℤ := do
  pad 4
  unpacked .i

def uint32 : Decoder ℤ := do
  pad 4
  unpacked .I

/-- The bytes of `count` doubles, unpacked. -/
def takeDoubles (count : ℕ) : Decoder (List (BitVec 64)) := do
  let raw ← take (count*8)
  pure (unpackDoubles count raw)

def float64 : Decoder (BitVec 64) := do
  pad 8
  let raw ← take 8
  pure (BitVec.ofNat 64 (LittleEndian.ofBytes raw))

/-- `string` once its length is known. -/
def chars (length : ℕ) : Decoder PyStr :=
  if length = 0 then .fail (.valueError "invalid string length 0 in CDR stream")
  else do
    let raw ← take length
    match decodeUtf8 raw.dropLast with
    | .ok s => pure s
    | .error e => .fail e

def string : Decoder PyStr := do
  let length ← uint32
  chars length.toNat

def byteSequence : Decoder (List UInt8) := do
  pad 4
  let length ← uint32
  take length.toNat

def doubles (count : ℕ) : Decoder (List (BitVec 64)) := do
  pad 8
  takeDoubles count

/-- The padding comes even when no element follows. -/
def doubleSequence : Decoder (List (BitVec 64)) := do
  pad 4
  let count ← uint32
  pad 8
  takeDoubles count.toNat

theorem run_pad (alignment : ℕ) (r : CdrReader) : (pad alignment).run pyStep r = r.pad alignment :=
  Prog.run_op _ _ _

theorem run_take (size : ℕ) (r : CdrReader) : (take size).run pyStep r = r.take size :=
  Prog.run_op _ _ _

end Decoder

end Rcllite.Py
