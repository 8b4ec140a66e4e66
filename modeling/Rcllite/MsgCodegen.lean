import Rcllite.CdrReader

/-! The code `tools/msg_codegen.py` emits. A schema is a message definition
with every nested `pkg/Name` replaced by the definition it names, which is
possible exactly when the schema is acyclic; `serialize` and `deserialize`
are the static methods of the generated struct. -/
namespace Rcllite
open Interaction

/-- `T`, `T[]` or `T[<=N]`, and `T[N]`: the generator reads `is_seq` first and
`fixed_len` second, and its parser never sets both. -/
inductive Shape where
  | scalar
  | seq
  | array (n : ℕ)
deriving DecidableEq, Repr

mutual

inductive RosType where
  | prim (p : Prim)
  | string
  | nested (package name : String) (members : Members)

/-- The member list of a `MsgDef`, in declaration order. -/
inductive Members where
  | nil
  | cons (name : String) (shape : Shape) (type : RosType) (rest : Members)

end

/-- The C++ type `cpp_type` picks: the base type, a `std::vector` or a
`std::array` of it. -/
def Shape.Val (T : Type) : Shape → Type
  | .scalar => T
  | .seq => List T
  | .array n => List.Vector T n

mutual

def RosType.Val : RosType → Type
  | .prim p => p.Val
  | .string => List UInt8
  | .nested _ _ ms => ms.Val

def Members.Val : Members → Type
  | .nil => Unit
  | .cons _ shape t rest => shape.Val t.Val × rest.Val

end

def Shape.zero {T : Type} (z : T) : (shape : Shape) → shape.Val T
  | .scalar => z
  | .seq => ([] : List T)
  | .array n => List.Vector.replicate n z

mutual

/-- A value-initialised object. -/
def RosType.zero : (t : RosType) → t.Val
  | .prim p => p.zero
  | .string => ([] : List UInt8)
  | .nested _ _ ms => ms.zero

def Members.zero : (ms : Members) → ms.Val
  | .nil => ()
  | .cons _ shape t rest => (shape.zero t.zero, rest.zero)

end

section Serialize

def writeEach {T : Type} (elem : T → CdrWriter → CdrWriter) (f : List T) (w : CdrWriter) : CdrWriter :=
  f.foldl (fun w e => elem e w) w

/-- A primitive sequence behind its length: one bulk copy, except for the
bit-packed `std::vector<bool>`, which keeps the loop. -/
def serializePrimSeq (p : Prim) (f : List p.Val) (w : CdrWriter) : CdrWriter :=
  if p = .bool then writeEach (CdrWriter.writePrim p) f w
  else if f.isEmpty then w
  else w.writeAligned (f.flatMap p.toBytes) p.sizeof

def serializePrimArray (p : Prim) (f : List p.Val) (w : CdrWriter) : CdrWriter :=
  (w.alignTo p.align).writeBytes (f.flatMap p.toBytes)

def serializeSeqBody : (t : RosType) → (t.Val → CdrWriter → CdrWriter) →
    List t.Val → CdrWriter → CdrWriter
  | .prim p, _, f, w => serializePrimSeq p f w
  | .string, elem, f, w => writeEach elem f w
  | .nested _ _ _, elem, f, w => writeEach elem f w

def serializeArray : (t : RosType) → (t.Val → CdrWriter → CdrWriter) →
    List t.Val → CdrWriter → CdrWriter
  | .prim p, _, f, w => serializePrimArray p f w
  | .string, elem, f, w => writeEach elem f w
  | .nested _ _ _, elem, f, w => writeEach elem f w

/-- `emit_serialize`, given the scalar writer of the member's type. -/
def emitSerialize (t : RosType) (elem : t.Val → CdrWriter → CdrWriter) :
    (shape : Shape) → shape.Val t.Val → CdrWriter → CdrWriter
  | .seq, (f : List t.Val), w =>
    serializeSeqBody t elem f ((w.alignTo 4).writeUint32 (BitVec.ofNat 32 f.length))
  | .array _, (f : List.Vector t.Val _), w => serializeArray t elem f.toList w
  | .scalar, f, w => elem f w

mutual

def RosType.serialize : (t : RosType) → t.Val → CdrWriter → CdrWriter
  | .prim p, v, w => CdrWriter.writePrim p v w
  | .string, v, w => CdrWriter.writeString v w
  | .nested _ _ ms, v, w => ms.serialize v w

def Members.serialize : (ms : Members) → ms.Val → CdrWriter → CdrWriter
  | .nil, _, w => w
  | .cons _ shape t rest, v, w => rest.serialize v.2 (emitSerialize t t.serialize shape v.1 w)

end

end Serialize

section Deserialize
open Decoder

/-- The objects a bulk `memcpy` leaves in an array of `n` elements. -/
def ofBlocks (p : Prim) (n : ℕ) (bs : List UInt8) : List.Vector p.Val n :=
  ⟨(LittleEndian.blocks p.sizeof n bs).map p.ofBytes, by simp⟩

def deserializePrimSeq (p : Prim) (n : ℕ) : Decoder (List p.Val) :=
  if p = .bool then (readPrim p).times n
  else if n ≠ 0 then do
    alignTo p.align
    let bs ← readBytes n p.sizeof
    pure (ofBlocks p n bs).toList
  else pure []

def deserializePrimArray (p : Prim) (n : ℕ) : Decoder (List.Vector p.Val n) := do
  alignTo p.align
  let bs ← readBytes n p.sizeof
  pure (ofBlocks p n bs)

/-- The elements of a sequence of known length; `fresh` is the element a
`resize` leaves. -/
def deserializeSeqBody : (t : RosType) → (t.Val → Decoder t.Val) → (fresh : t.Val) →
    (n : ℕ) → Decoder (List t.Val)
  | .prim p, _, _, n => deserializePrimSeq p n
  | .string, elem, fresh, n => (elem fresh).times n
  | .nested _ _ _, elem, fresh, n => (elem fresh).times n

def deserializeArray : (t : RosType) → (t.Val → Decoder t.Val) → {n : ℕ} →
    List.Vector t.Val n → Decoder (List.Vector t.Val n)
  | .prim p, _, n, _ => deserializePrimArray p n
  | .string, elem, _, old => Prog.forVec elem old
  | .nested _ _ _, elem, _, old => Prog.forVec elem old

/-- `emit_deserialize`, given the scalar reader of the member's type. The
old content of a sequence is cleared, that of an array is overwritten. -/
def emitDeserialize (t : RosType) (elem : t.Val → Decoder t.Val) :
    (shape : Shape) → shape.Val t.Val → Decoder (shape.Val t.Val)
  | .seq, _ => do
    alignTo 4
    let n ← readUint32
    guardRemaining n.toNat
    deserializeSeqBody t elem t.zero n.toNat
  | .array _, (old : List.Vector t.Val _) => deserializeArray t elem old
  | .scalar, old => elem old

mutual

def RosType.deserialize : (t : RosType) → t.Val → Decoder t.Val
  | .prim p, _ => readPrim p
  | .string, _ => readString
  | .nested _ _ ms, old => ms.deserialize old

def Members.deserialize : (ms : Members) → ms.Val → Decoder ms.Val
  | .nil, _ => pure ()
  | .cons _ shape t rest, old => do
    let v ← emitDeserialize t t.deserialize shape old.1
    let vs ← rest.deserialize old.2
    pure (v, vs)

end

end Deserialize

/-- The payload of one message, header included. -/
def Members.encode (ms : Members) (v : ms.Val) : List UInt8 := (ms.serialize v CdrWriter.new).payload

/-- `CdrReader r(payload); M::deserialize(msg, r)` over a `msg` that holds
`old`. -/
def Members.decodeInto (guarded : Bool) (ms : Members) (old : ms.Val) (b : List UInt8) :
    Except Failure (ms.Val × CdrReader) :=
  match CdrReader.new b with
  | .ok r => (ms.deserialize old).run (readStep guarded) r
  | .error e => .error e

/-- The same into a fresh `M msg{}`, as every caller does. -/
def Members.decode (guarded : Bool) (ms : Members) (b : List UInt8) : Except Failure (ms.Val × CdrReader) :=
  ms.decodeInto guarded ms.zero b

end Rcllite
