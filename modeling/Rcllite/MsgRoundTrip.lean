import Rcllite.CdrRoundTrip

/-! The emitted `deserialize` undoes the emitted `serialize`, for every schema
and from every offset, by induction over the schema. -/
namespace Rcllite
open Interaction

/-- Every sequence length fits the `uint32` prefix and every element is fine. -/
def Shape.Fits {T : Type} (ok : T → Prop) : (shape : Shape) → shape.Val T → Prop
  | .scalar, v => ok v
  | .seq, (l : List T) => l.length < 2^32 ∧ ∀ e ∈ l, ok e
  | .array _, (v : List.Vector T _) => ∀ e ∈ v.toList, ok e

mutual

/-- Sequence lengths fit in `uint32` and every string satisfies `okStr`. -/
def RosType.Fits (okStr : List UInt8 → Prop) : (t : RosType) → t.Val → Prop
  | .prim _, _ => True
  | .string, s => okStr s
  | .nested _ _ ms, v => ms.Fits okStr v

def Members.Fits (okStr : List UInt8 → Prop) : (ms : Members) → ms.Val → Prop
  | .nil, _ => True
  | .cons _ shape t rest, v => shape.Fits (t.Fits okStr) v.1 ∧ rest.Fits okStr v.2

end

/-- Serializing always appends at least one byte. -/
def Members.EncodesByte (ms : Members) : Prop :=
  ∀ (v : ms.Val) (w : CdrWriter), w.buf.length < (ms.serialize v w).buf.length

/-- A nested type that a sequence may hold without upsetting the length
guard; primitives and strings always qualify. -/
def RosType.ElementNonempty : RosType → Prop
  | .nested _ _ ms => ms.EncodesByte
  | _ => True

mutual

def RosType.SeqElementsNonempty : RosType → Prop
  | .nested _ _ ms => ms.SeqElementsNonempty
  | _ => True

/-- The generator's assumption "every element needs >= 1 byte", for every
sequence anywhere in the schema. -/
def Members.SeqElementsNonempty : Members → Prop
  | .nil => True
  | .cons _ shape t rest =>
    (shape = .seq → t.ElementNonempty) ∧ t.SeqElementsNonempty ∧ rest.SeqElementsNonempty

end

theorem writeScalar_grows (p : Prim) (v : p.Val) (w : CdrWriter) :
    w.buf.length < (CdrWriter.writeScalar p v w).buf.length := by
  have := p.sizeof_pos
  rw [CdrWriter.writeScalar_buf, List.length_append, List.length_append, Prim.toBytes_length]
  omega

theorem writePrim_grows (p : Prim) (v : p.Val) (w : CdrWriter) :
    w.buf.length < (CdrWriter.writePrim p v w).buf.length := by
  rw [CdrWriter.writePrim_eq_writeScalar]
  exact writeScalar_grows p v w

theorem writeString_length (s : List UInt8) (w : CdrWriter) :
    (CdrWriter.writeString s w).buf.length =
      w.buf.length + padding 4 w.payloadOffset + 4 + (s.length + 1) := by
  rw [CdrWriter.writeString_buf]
  simp only [List.length_append, List.length_replicate, LittleEndian.toBytes_length,
    List.length_singleton]
  omega

theorem writeString_grows (s : List UInt8) (w : CdrWriter) :
    w.buf.length < (CdrWriter.writeString s w).buf.length := by
  rw [writeString_length]
  omega

theorem RosType.serialize_grows (t : RosType) (ht : t.ElementNonempty) (v : t.Val) (w : CdrWriter) :
    w.buf.length < (t.serialize v w).buf.length := by
  cases t with
  | prim p => exact writePrim_grows p v w
  | string => exact writeString_grows v w
  | nested package name ms => exact ht v w

theorem writeEach_grows {T : Type} (elem : T → CdrWriter → CdrWriter)
    (hgrow : ∀ v w, w.buf.length < (elem v w).buf.length) (l : List T) (w : CdrWriter) :
    w.buf.length + l.length ≤ (writeEach elem l w).buf.length := by
  induction l generalizing w with
  | nil => simp [writeEach]
  | cons e l ih =>
    have hh := hgrow e w
    have ht := ih (elem e w)
    simp only [writeEach, List.foldl_cons, List.length_cons] at ht ⊢
    omega

theorem serializePrimSeq_grows (p : Prim) (l : List p.Val) (w : CdrWriter) :
    w.buf.length + l.length ≤ (serializePrimSeq p l w).buf.length := by
  unfold serializePrimSeq
  split_ifs with hb he
  · exact writeEach_grows _ (writePrim_grows p) l w
  · have hl : l = [] := by simpa using he
    simp [hl]
  · have hf := LittleEndian.flatMap_length p.toBytes p.sizeof p.toBytes_length l
    have hle : l.length ≤ l.length*p.sizeof := Nat.le_mul_of_pos_right _ p.sizeof_pos
    rw [CdrWriter.writeAligned_buf, List.length_append, List.length_append, hf]
    omega

/-- The body of a sequence is at least as long as its element count. -/
theorem serializeSeqBody_grows (t : RosType) (elem : t.Val → CdrWriter → CdrWriter)
    (hgrow : ∀ v w, w.buf.length < (elem v w).buf.length) (l : List t.Val) (w : CdrWriter) :
    w.buf.length + l.length ≤ (serializeSeqBody t elem l w).buf.length := by
  cases t with
  | prim p => exact serializePrimSeq_grows p l w
  | string => exact writeEach_grows elem hgrow l w
  | nested package name ms => exact writeEach_grows elem hgrow l w

theorem writeEach_extends {T : Type} (elem : T → CdrWriter → CdrWriter)
    (hext : ∀ v w, w.buf <+: (elem v w).buf) (l : List T) (w : CdrWriter) :
    w.buf <+: (writeEach elem l w).buf := by
  induction l generalizing w with
  | nil => exact List.prefix_rfl
  | cons e l ih => exact (hext e w).trans (ih (elem e w))

theorem writeAligned_extends (data : List UInt8) (n : ℕ) (w : CdrWriter) :
    w.buf <+: (w.writeAligned data n).buf := by
  rw [CdrWriter.writeAligned_buf]
  exact List.prefix_append _ _

theorem writePrim_extends (p : Prim) (v : p.Val) (w : CdrWriter) : w.buf <+: (CdrWriter.writePrim p v w).buf := by
  rw [CdrWriter.writePrim_eq_writeScalar]
  exact writeAligned_extends _ _ w

theorem writeString_extends (s : List UInt8) (w : CdrWriter) : w.buf <+: (CdrWriter.writeString s w).buf := by
  rw [CdrWriter.writeString_buf]
  exact List.prefix_append _ _

theorem serializePrimSeq_extends (p : Prim) (l : List p.Val) (w : CdrWriter) :
    w.buf <+: (serializePrimSeq p l w).buf := by
  unfold serializePrimSeq
  split_ifs
  · exact writeEach_extends _ (writePrim_extends p) l w
  · exact List.prefix_rfl
  · exact writeAligned_extends _ _ w

/-- A member only appends. -/
theorem emitSerialize_extends (t : RosType) (elem : t.Val → CdrWriter → CdrWriter)
    (hext : ∀ v w, w.buf <+: (elem v w).buf) (shape : Shape) (v : shape.Val t.Val) (w : CdrWriter) :
    w.buf <+: (emitSerialize t elem shape v w).buf := by
  cases shape with
  | scalar => exact hext v w
  | seq =>
    have hlen : w.buf <+: ((w.alignTo 4).writeUint32 (BitVec.ofNat 32 (List.length v))).buf :=
      (List.prefix_append _ _).trans (writeAligned_extends _ _ (w.alignTo 4))
    refine hlen.trans ?_
    cases t with
    | prim p => exact serializePrimSeq_extends p v _
    | string => exact writeEach_extends elem hext v _
    | nested package name ms => exact writeEach_extends elem hext v _
  | array n =>
    cases t with
    | prim p => exact writeAligned_extends _ _ w
    | string => exact writeEach_extends elem hext (List.Vector.toList v) w
    | nested package name ms => exact writeEach_extends elem hext (List.Vector.toList v) w

mutual

theorem RosType.serialize_extends : (t : RosType) → (v : t.Val) → (w : CdrWriter) →
    w.buf <+: (t.serialize v w).buf
  | .prim p, v, w => writePrim_extends p v w
  | .string, v, w => writeString_extends v w
  | .nested _ _ ms, v, w => ms.serialize_extends v w

/-- Serializing only appends. -/
theorem Members.serialize_extends : (ms : Members) → (v : ms.Val) → (w : CdrWriter) →
    w.buf <+: (ms.serialize v w).buf
  | .nil, _, _ => List.prefix_rfl
  | .cons _ shape t rest, v, w =>
    (emitSerialize_extends t t.serialize t.serialize_extends shape v.1 w).trans (rest.serialize_extends v.2 _)

end

/-- A message whose first field is a scalar that takes up room does so itself. -/
theorem Members.encodesByte_cons (name : String) {t : RosType} (ht : t.ElementNonempty) (rest : Members) :
    (Members.cons name .scalar t rest).EncodesByte := by
  intro v w
  exact (t.serialize_grows ht v.1 w).trans_le (rest.serialize_extends v.2 _).length_le

theorem ofBlocks_toList (p : Prim) (l : List p.Val) :
    (ofBlocks p l.length (l.flatMap p.toBytes)).toList = l := by
  change (LittleEndian.blocks p.sizeof l.length (l.flatMap p.toBytes)).map p.ofBytes = l
  rw [LittleEndian.blocks_flatMap p.toBytes p.sizeof p.toBytes_length, List.map_map]
  exact List.map_id'' p.ofBytes_toBytes l

theorem ofBlocks_vector (p : Prim) {n : ℕ} (v : List.Vector p.Val n) :
    ofBlocks p n (v.toList.flatMap p.toBytes) = v := by
  apply List.Vector.toList_injective
  have h := ofBlocks_toList p v.toList
  rwa [List.Vector.toList_length] at h

namespace ReadsBack
variable {g : Bool} {E : Failure → Prop}

/-- One aligned bulk copy carries any number of primitive objects. -/
theorem primArray (p : Prim) {n : ℕ} (v : List.Vector p.Val n) :
    ReadsBack g E (deserializePrimArray p n) v (serializePrimArray p v.toList) := by
  have hlen : (v.toList.flatMap p.toBytes).length = n*p.sizeof := by
    rw [LittleEndian.flatMap_length p.toBytes p.sizeof p.toBytes_length, List.Vector.toList_length]
  have hb : ReadsBack g E (Decoder.readBytes n p.sizeof) (v.toList.flatMap p.toBytes) _ :=
    readBytes n p.sizeof _ hlen
  exact (alignTo p.align).bind (k := fun _ => (Decoder.readBytes n p.sizeof).bind
    (fun bs => .done (ofBlocks p n bs))) (hb.map (ofBlocks p n) (ofBlocks_vector p v))

theorem primSeq (p : Prim) (l : List p.Val) :
    ReadsBack g E (deserializePrimSeq p l.length) l (serializePrimSeq p l) := by
  unfold deserializePrimSeq serializePrimSeq
  by_cases hb : p = .bool
  · simp only [if_pos hb]
    exact times l (fun v _ => readPrim p v)
  · simp only [if_neg hb]
    by_cases hn : l = []
    · subst hn
      exact done []
    · have hlen : l.length ≠ 0 := fun h => hn (List.length_eq_zero_iff.mp h)
      have hemp : ¬ l.isEmpty = true := by simpa using hn
      simp only [if_pos hlen, if_neg hemp]
      have hw : (fun w : CdrWriter => w.writeAligned (l.flatMap p.toBytes) p.sizeof) =
          serializePrimArray p l := by
        rw [← p.align_eq_sizeof]
        rfl
      rw [hw]
      exact (primArray p ⟨l, rfl⟩).map List.Vector.toList rfl

variable {t : RosType} {ser : t.Val → CdrWriter → CdrWriter} {des : t.Val → Decoder t.Val}
  {ok : t.Val → Prop}

theorem seqBody (helem : ∀ v, ok v → ∀ old, ReadsBack g E (des old) v (ser v)) (fresh : t.Val)
    (l : List t.Val) (hl : ∀ v ∈ l, ok v) :
    ReadsBack g E (deserializeSeqBody t des fresh l.length) l (serializeSeqBody t ser l) := by
  have hloop : ReadsBack g E ((des fresh).times l.length) l (writeEach ser l) :=
    times l (fun v hv => helem v (hl v hv) fresh)
  cases t with
  | prim p => exact primSeq p l
  | string => exact hloop
  | nested package name ms => exact hloop

theorem array (helem : ∀ v, ok v → ∀ old, ReadsBack g E (des old) v (ser v)) {n : ℕ}
    (old v : List.Vector t.Val n) (hv : ∀ e ∈ v.toList, ok e) :
    ReadsBack g E (deserializeArray t des old) v (serializeArray t ser v.toList) := by
  have hloop : ReadsBack g E (Prog.forVec des old) v (writeEach ser v.toList) :=
    forVec old v (fun e he => helem e (hv e he))
  cases t with
  | prim p => exact primArray p v
  | string => exact hloop
  | nested package name ms => exact hloop

/-- One member, in each of its three shapes. The guard of a sequence passes
because the body is at least as long as the element count. -/
theorem emit (helem : ∀ v, ok v → ∀ old, ReadsBack g E (des old) v (ser v)) (shape : Shape)
    (hgrow : g = true → shape = .seq → ∀ v w, w.buf.length < (ser v w).buf.length)
    (v old : shape.Val t.Val) (hv : shape.Fits ok v) :
    ReadsBack g E (emitDeserialize t des shape old) v (emitSerialize t ser shape v) := by
  cases shape with
  | scalar => exact helem v hv old
  | array n => exact array helem old v hv
  | seq =>
    change List t.Val at v
    have hn : (BitVec.ofNat 32 v.length).toNat = v.length := by
      rw [BitVec.toNat_ofNat, Nat.mod_eq_of_lt hv.1]
    have hbody : ReadsBack g E ((Decoder.guardRemaining (BitVec.ofNat 32 v.length).toNat).bind
        (fun _ => deserializeSeqBody t des t.zero (BitVec.ofNat 32 v.length).toNat)) v
        (serializeSeqBody t ser v) := by
      rw [hn]
      exact guardRemaining v.length (fun h w => serializeSeqBody_grows t ser (hgrow h rfl) v w)
        (seqBody helem t.zero v hv.2)
    have hlen : ReadsBack g E (Decoder.readUint32.bind (fun n => (Decoder.guardRemaining n.toNat).bind
        (fun _ => deserializeSeqBody t des t.zero n.toNat))) v _ :=
      (readUint32 (BitVec.ofNat 32 v.length)).bind hbody
    exact (alignTo 4).bind (k := fun _ => Decoder.readUint32.bind (fun n =>
      (Decoder.guardRemaining n.toNat).bind (fun _ => deserializeSeqBody t des t.zero n.toNat))) hlen

end ReadsBack

section Schema
variable {g : Bool} {E : Failure → Prop} {okStr : List UInt8 → Prop}

mutual

theorem RosType.reads_back
    (hstr : ∀ s, okStr s → ReadsBack g E Decoder.readString s (CdrWriter.writeString s))
    (t : RosType) (hg : g = true → t.SeqElementsNonempty) (v : t.Val) (hv : t.Fits okStr v)
    (old : t.Val) : ReadsBack g E (t.deserialize old) v (t.serialize v) := by
  cases t with
  | prim p => exact ReadsBack.readPrim p v
  | string => exact hstr v hv
  | nested package name ms => exact Members.reads_back hstr ms hg v hv old

/-- Every schema reads back what it wrote. Without the guards no condition on
the schema is left. -/
theorem Members.reads_back
    (hstr : ∀ s, okStr s → ReadsBack g E Decoder.readString s (CdrWriter.writeString s))
    (ms : Members) (hg : g = true → ms.SeqElementsNonempty) (v : ms.Val) (hv : ms.Fits okStr v)
    (old : ms.Val) : ReadsBack g E (ms.deserialize old) v (ms.serialize v) := by
  cases ms with
  | nil => exact ReadsBack.done ()
  | cons name shape t rest =>
    obtain ⟨v, vs⟩ := v
    have helem : ∀ u, t.Fits okStr u → ∀ o, ReadsBack g E (t.deserialize o) u (t.serialize u) :=
      fun u hu o => RosType.reads_back hstr t (fun h => (hg h).2.1) u hu o
    have hhead := ReadsBack.emit helem shape
      (fun h hs => t.serialize_grows ((hg h).1 hs)) v old.1 hv.1
    have htail := Members.reads_back hstr rest (fun h => (hg h).2.2) vs hv.2 old.2
    exact hhead.bind (k := fun a => (rest.deserialize old.2).bind (fun as => .done (a, as)))
      (htail.map (fun us => (v, us)) rfl)

end

end Schema

/-- Strings whose length, NUL included, is representable in the prefix. -/
def StringFits (s : List UInt8) : Prop := s.length + 1 < 2^32

/-- The generated codec round trips at every offset, over any old content of
the destination and in front of any trailing bytes. -/
theorem generated_codec_round_trip (ms : Members) (hs : ms.SeqElementsNonempty) (v : ms.Val)
    (hv : ms.Fits StringFits v) (w : CdrWriter) :
    ∃ out, (ms.serialize v w).buf = w.buf ++ out ∧
      ∀ (old : ms.Val) (start t : List UInt8), start.length = w.buf.length →
        (start ++ out ++ t).length < 2^64 →
        (ms.deserialize old).run (readStep true) ⟨start ++ out ++ t, start.length⟩ =
          .ok (v, ⟨start ++ out ++ t, (start ++ out).length⟩) := by
  have hread (old : ms.Val) : ReadsBack true (fun _ => False) (ms.deserialize old) v (ms.serialize v) :=
    Members.reads_back (fun s => ReadsBack.readString s) ms (fun _ => hs) v hv old
  obtain ⟨out, hout, -⟩ := hread v w
  refine ⟨out, hout, fun old start t hlen hsize => ?_⟩
  obtain ⟨out', hout', hrun⟩ := (hread old).exact w
  obtain rfl : out = out' := List.append_cancel_left (hout.symm.trans hout')
  have hahead : (start ++ out ++ t).drop start.length = out ++ t := by
    rw [List.append_assoc, List.drop_left]
  have hr : StandsBefore ⟨start ++ out ++ t, start.length⟩ w out :=
    ⟨hlen, by simp only [List.length_append]; omega, ⟨t, hahead.symm⟩, hsize⟩
  rw [hrun _ hr, List.length_append]

/-- `std_msgs/String`. -/
def stringSchema : Members := .cons "data" .scalar .string .nil

theorem generated_codec_round_trip_string :
    (stringSchema.deserialize ([0x21], ())).run (readStep true)
        ⟨[0, 1, 0, 0, 3, 0, 0, 0, 0x48, 0x69, 0, 7], 4⟩ =
      .ok (([0x48, 0x69], ()), ⟨[0, 1, 0, 0, 3, 0, 0, 0, 0x48, 0x69, 0, 7], 11⟩) := by
  obtain ⟨out, hout, hrun⟩ := generated_codec_round_trip stringSchema ⟨nofun, trivial, trivial⟩
    ([0x48, 0x69], ()) ⟨(by decide : 3 < 2^32), trivial⟩ CdrWriter.new
  obtain rfl : out = [3, 0, 0, 0, 0x48, 0x69, 0] := List.append_cancel_left (hout.symm.trans rfl)
  exact hrun ([0x21], ()) [0, 1, 0, 0] [7] rfl (by decide)

/-- A string of `2^32 - 1` bytes is announced with length zero, which the
reader refuses. -/
theorem readString_wrapped (g : Bool) (s : List UInt8) (hs : s.length + 1 = 2^32) (w : CdrWriter) :
    ∃ out, (CdrWriter.writeString s w).buf = w.buf ++ out ∧
      ∀ r : CdrReader, StandsBefore r w out → Decoder.readString.run (readStep g) r =
        .error (.error "invalid string length in CDR stream") := by
  obtain ⟨out, hout, hrun⟩ := (ReadsBack.readUint32 (g := g)
    (BitVec.ofNat 32 (s.length + 1))).exact w
  refine ⟨out ++ (s ++ [0]), ?_, fun r hr => ?_⟩
  · rw [CdrWriter.writeString, CdrWriter.writeBytes_buf, hout, List.append_assoc]
  · have hz : (BitVec.ofNat 32 (s.length + 1)).toNat = 0 := by
      rw [BitVec.toNat_ofNat, hs, Nat.mod_self]
    change (Decoder.readUint32.bind (fun len => Decoder.readChars len.toNat)).run _ r = _
    rw [Prog.run_bind_ok _ (hrun r hr.left), hz, Decoder.run_readChars, CdrReader.readChars,
      if_pos (Or.inl rfl)]

theorem new_header (out : List UInt8) : CdrReader.new (CdrWriter.new.buf ++ out) =
    .ok ⟨CdrWriter.new.buf ++ out, 4⟩ := rfl

/-- A payload decodes to the value it was made from, whatever follows it. -/
theorem Members.decode_encode (ms : Members) (hs : ms.SeqElementsNonempty) (v : ms.Val)
    (hv : ms.Fits StringFits v) (t : List UInt8) (hlen : (ms.encode v ++ t).length < 2^64) :
    ms.decode true (ms.encode v ++ t) = .ok (v, ⟨ms.encode v ++ t, (ms.encode v).length⟩) := by
  have hread : ReadsBack true (fun _ => False) (ms.deserialize ms.zero) v (ms.serialize v) :=
    Members.reads_back (fun s => ReadsBack.readString s) ms (fun _ => hs) v hv ms.zero
  obtain ⟨out, hout, hrun⟩ := hread.exact CdrWriter.new
  have henc : ms.encode v = CdrWriter.new.buf ++ out := hout
  rw [henc, List.append_assoc] at hlen ⊢
  have hr : StandsBefore ⟨CdrWriter.new.buf ++ (out ++ t), 4⟩ CdrWriter.new out :=
    ⟨rfl, by simp [CdrWriter.new], ⟨t, by simp [CdrWriter.new]⟩, hlen⟩
  rw [Members.decode, Members.decodeInto, new_header]
  dsimp only
  rw [hrun _ hr, List.length_append]
  rfl

theorem stringSchema_wrapped (s : List UInt8) (hs : s.length + 1 = 2^32) :
    stringSchema.decode true (stringSchema.encode (s, ())) =
      .error (.error "invalid string length in CDR stream") := by
  obtain ⟨out, hout, hrun⟩ := readString_wrapped true s hs CdrWriter.new
  have henc : stringSchema.encode (s, ()) = CdrWriter.new.buf ++ out := hout
  have hlen : (CdrWriter.new.buf ++ out).length < 2^64 := by
    rw [← hout, writeString_length, hs]
    decide
  have hr : StandsBefore ⟨CdrWriter.new.buf ++ out, 4⟩ CdrWriter.new out :=
    ⟨rfl, by simp [CdrWriter.new], ⟨[], by simp [CdrWriter.new]⟩, hlen⟩
  have hstr := hrun _ hr
  rw [henc, Members.decode, Members.decodeInto, new_header]
  change (Decoder.readString.bind _).run _ _ = _
  exact Prog.run_bind_error _ hstr _

/-- The bound on strings cannot be `size() < 2^32`: at exactly `2^32 - 1`
bytes the length on the wire is zero. -/
theorem uint32_max_string_not_read_back :
    stringSchema.SeqElementsNonempty ∧
    stringSchema.Fits (fun s => s.length < 2^32) (List.replicate (2^32 - 1) 0x61, ()) ∧
    stringSchema.decode true (stringSchema.encode (List.replicate (2^32 - 1) 0x61, ())) =
      .error (.error "invalid string length in CDR stream") := by
  refine ⟨⟨nofun, trivial, trivial⟩, ⟨?_, trivial⟩, stringSchema_wrapped _ ?_⟩
  · change (List.replicate (2^32 - 1) (0x61 : UInt8)).length < 2^32
    rw [List.length_replicate]
    decide
  · rw [List.length_replicate]
    decide

end Rcllite
