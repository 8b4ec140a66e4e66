import Rcllite.CdrGuard

/-! The length guard of generated code, for every schema: exactly the schemas
in which some sequence holds elements that may occupy no byte at all have
streams that only the guard refuses. -/
namespace Rcllite
open Interaction

/-- Whether a member with elements of a type that takes (or does not take) a
byte takes one itself; a sequence has its length. -/
def Shape.needsByte (elem : Bool) : Shape → Bool
  | .scalar => elem
  | .seq => true
  | .array n => n != 0 && elem

mutual

/-- Every encoding of the type has at least one byte, padding apart. -/
def RosType.needsByte : RosType → Bool
  | .prim _ => true
  | .string => true
  | .nested _ _ ms => ms.needsByte

def Members.needsByte : Members → Bool
  | .nil => false
  | .cons _ shape t rest => shape.needsByte t.needsByte || rest.needsByte

end

/-- The elements of a zero-length array are never visited. -/
def Shape.guardSound (needsByte sound : Bool) : Shape → Bool
  | .scalar => sound
  | .seq => needsByte && sound
  | .array n => n == 0 || sound

mutual

def RosType.guardSound : RosType → Bool
  | .nested _ _ ms => ms.guardSound
  | _ => true

/-- "every element needs >= 1 byte", for the sequences a decoder can come to. -/
def Members.guardSound : Members → Bool
  | .nil => true
  | .cons _ shape t rest => shape.guardSound t.needsByte t.guardSound && rest.guardSound

end

/-- The guards reject no stream that the decoder without them accepts. -/
def Members.GuardTransparent (ms : Members) : Prop :=
  ∀ (old : ms.Val) (b : List UInt8), b.length < 2^63 → ∀ (v : ms.Val) (r : CdrReader),
    ms.decodeInto true old b = .ok (v, r) ↔ ms.decodeInto false old b = .ok (v, r)

section Sound
open Decoder

theorem forVec_moves {α β : Type} {f : α → Decoder β} (hm : ∀ a, (f a).Modest) (hf : ∀ a, Moves (f a)) {n : ℕ}
    (hn : n ≠ 0) (v : List.Vector α n) : Moves (Prog.forVec f v) := by
  obtain ⟨m, rfl⟩ := Nat.exists_eq_succ_of_ne_zero hn
  exact moves_bind_left (hm _) (hf _) (fun _ => Prog.uses_bind (Prog.uses_forVec hm v.tail) (fun _ => trivial))

theorem primArray_moves (p : Prim) {n : ℕ} (hn : n ≠ 0) (hsize : n*p.sizeof < 2^62) :
    Moves (deserializePrimArray p n) := by
  have hpos : 0 < n*p.sizeof := Nat.mul_pos (Nat.pos_of_ne_zero hn) p.sizeof_pos
  exact moves_bind_right (alignTo_modest (align_range p)) (fun _ =>
    moves_bind_left (readBytes_modest hsize) (readBytes_moves hpos hsize) (fun _ => trivial))

variable {t : RosType} {des : t.Val → Decoder t.Val}

theorem emit_moves (hm : ∀ old, (des old).Modest) (shape : Shape)
    (hsize : ∀ n p, shape = .array n → t = .prim p → n*p.sizeof < 2^62)
    (hdes : t.needsByte = true → ∀ old, Moves (des old)) (hshape : shape.needsByte t.needsByte = true)
    (old : shape.Val t.Val) : Moves (emitDeserialize t des shape old) := by
  cases shape with
  | scalar => exact hdes hshape old
  | seq =>
    refine moves_bind_right (alignTo_modest (by decide)) (fun _ => ?_)
    exact moves_bind_left readUint32_modest readUint32_moves (fun n =>
      Prog.uses_bind (guardRemaining_modest n.isLt) (fun _ => seqBody_modest hm t.zero n.isLt))
  | array n =>
    simp only [Shape.needsByte, Bool.and_eq_true, bne_iff_ne] at hshape
    cases t with
    | prim p => exact primArray_moves p hshape.1 (hsize n p rfl rfl)
    | string => exact forVec_moves hm (hdes hshape.2) hshape.1 old
    | nested package name ms => exact forVec_moves hm (hdes hshape.2) hshape.1 old

mutual

theorem RosType.deserialize_moves (t : RosType) (harr : t.ArraysBelow (2^62)) (ht : t.needsByte = true)
    (old : t.Val) : Moves (t.deserialize old) := by
  cases t with
  | prim p => exact readPrim_moves p
  | string => exact readString_moves
  | nested package name ms => exact Members.deserialize_moves ms harr ht old

/-- Decoding a type that needs a byte moves the reader. -/
theorem Members.deserialize_moves (ms : Members) (harr : ms.ArraysBelow (2^62)) (hms : ms.needsByte = true)
    (old : ms.Val) : Moves (ms.deserialize old) := by
  cases ms with
  | nil => cases hms
  | cons name shape t rest =>
    have hhead := emit_modest (fun o => t.deserialize_modest harr.2.1 o) shape harr.1 old.1
    have hrest := rest.deserialize_modest harr.2.2 old.2
    simp only [Members.needsByte, Bool.or_eq_true] at hms
    rcases hms with hshape | htail
    · exact moves_bind_left hhead
        (emit_moves (fun o => t.deserialize_modest harr.2.1 o) shape harr.1
          (fun ht o => RosType.deserialize_moves t harr.2.1 ht o) hshape old.1)
        (fun _ => Prog.uses_bind hrest (fun _ => trivial))
    · exact moves_bind_right hhead (fun _ => moves_bind_left hrest
        (Members.deserialize_moves rest harr.2.2 htail old.2) (fun _ => trivial))

end

/-- The elements behind a length consume at least as many bytes. -/
theorem seqBody_advance (hm : ∀ old, (des old).Modest) (hdes : ∀ old, Moves (des old)) (fresh : t.Val) {n : ℕ}
    (hn : n < 2^32) {g : Bool} {r s : CdrReader} {l : List t.Val} (hr : r.Ready)
    (h : (deserializeSeqBody t des fresh n).run (readStep g) r = .ok (l, s)) : r.pos + n ≤ s.pos := by
  cases t with
  | prim p =>
    have hsize : r.buf.length < 2^64 := hr.size_lt.trans (by decide)
    have hloop := deserializePrimSeq_toOption hsize g p n hn
    change (deserializePrimSeq p n).run (readStep g) r = _ at h
    rw [h] at hloop
    cases hrun : ((readPrim p).times n).run (readStep g) r with
    | error e => simp [hrun, Except.toOption] at hloop
    | ok x =>
      rw [hrun] at hloop
      obtain rfl : (l, s) = x := Option.some.inj hloop
      exact times_advance (readPrim_modest p) (readPrim_moves p) hr hrun
  | string => exact times_advance (hm fresh) (hdes fresh) hr h
  | nested package name ms => exact times_advance (hm fresh) (hdes fresh) hr h

/-- The bulk copy, whatever is made of the bytes. -/
theorem bulkRead_guardFree {α : Type} (p : Prim) {n : ℕ} (hsize : n*p.sizeof < 2^62) {k : List UInt8 → Decoder α}
    (hk : ∀ b, GuardFree (k b)) :
    GuardFree ((alignTo p.align).bind (fun _ => (readBytes n p.sizeof).bind k)) := by
  refine bind_guardFree (alignTo_modest (align_range p)) (alignTo_guardFree p.align) (fun _ => ?_)
  exact bind_guardFree (readBytes_modest hsize) (readBytes_guardFree n p.sizeof) hk

theorem primArray_guardFree (p : Prim) {n : ℕ} (hsize : n*p.sizeof < 2^62) :
    GuardFree (deserializePrimArray p n) := bulkRead_guardFree p hsize (fun _ => done_guardFree _)

theorem primSeq_guardFree (p : Prim) {n : ℕ} (hn : n < 2^32) : GuardFree (deserializePrimSeq p n) := by
  have hp : n*p.sizeof ≤ n*8 := Nat.mul_le_mul_left n p.sizeof_le
  have hsize : n*p.sizeof < 2^62 := by omega
  unfold deserializePrimSeq
  split_ifs
  · exact times_guardFree (readPrim_modest p) (readPrim_guardFree p) n
  · exact bulkRead_guardFree p hsize (fun _ => done_guardFree _)
  · exact done_guardFree []

theorem seqBody_guardFree (hm : ∀ old, (des old).Modest) (hdes : ∀ old, GuardFree (des old)) (fresh : t.Val)
    {n : ℕ} (hn : n < 2^32) : GuardFree (deserializeSeqBody t des fresh n) := by
  cases t with
  | prim p => exact primSeq_guardFree p hn
  | string => exact times_guardFree (hm fresh) (hdes fresh) n
  | nested package name ms => exact times_guardFree (hm fresh) (hdes fresh) n

theorem emit_guardFree (hm : ∀ old, (des old).Modest) (shape : Shape)
    (hsize : ∀ n p, shape = .array n → t = .prim p → n*p.sizeof < 2^62)
    (hmove : t.needsByte = true → ∀ old, Moves (des old))
    (hdes : t.guardSound = true → ∀ old, GuardFree (des old))
    (hshape : shape.guardSound t.needsByte t.guardSound = true) (old : shape.Val t.Val) :
    GuardFree (emitDeserialize t des shape old) := by
  cases shape with
  | scalar => exact hdes hshape old
  | seq =>
    simp only [Shape.guardSound, Bool.and_eq_true] at hshape
    refine bind_guardFree (alignTo_modest (by decide)) (alignTo_guardFree 4) (fun _ => ?_)
    refine bind_guardFree readUint32_modest (readAligned_guardFree .uint32) (fun n => ?_)
    exact guardRemaining_guardFree (seqBody_modest hm t.zero n.isLt)
      (seqBody_guardFree hm (hdes hshape.2) t.zero n.isLt)
      (fun r s l hr h => seqBody_advance hm (hmove hshape.1) t.zero n.isLt hr h)
  | array n =>
    cases t with
    | prim p => exact primArray_guardFree p (hsize n p rfl rfl)
    | string => exact forVec_guardFree hm (hdes rfl) old
    | nested package name ms =>
      simp only [Shape.guardSound, Bool.or_eq_true, beq_iff_eq] at hshape
      rcases hshape with rfl | hms
      · exact done_guardFree _
      · exact forVec_guardFree hm (hdes hms) old

mutual

theorem RosType.deserialize_guardFree (t : RosType) (harr : t.ArraysBelow (2^62)) (ht : t.guardSound = true)
    (old : t.Val) : GuardFree (t.deserialize old) := by
  cases t with
  | prim p => exact readPrim_guardFree p
  | string => exact readString_guardFree
  | nested package name ms => exact Members.deserialize_guardFree ms harr ht old

theorem Members.deserialize_guardFree (ms : Members) (harr : ms.ArraysBelow (2^62))
    (hms : ms.guardSound = true) (old : ms.Val) : GuardFree (ms.deserialize old) := by
  cases ms with
  | nil => exact done_guardFree ()
  | cons name shape t rest =>
    simp only [Members.guardSound, Bool.and_eq_true] at hms
    have hm (o : t.Val) := t.deserialize_modest harr.2.1 o
    refine bind_guardFree (emit_modest hm shape harr.1 old.1) ?_ (fun _ => ?_)
    · exact emit_guardFree hm shape harr.1 (fun ht o => t.deserialize_moves harr.2.1 ht o)
        (fun ht o => RosType.deserialize_guardFree t harr.2.1 ht o) hms.1 old.1
    · exact bind_guardFree (rest.deserialize_modest harr.2.2 old.2)
        (Members.deserialize_guardFree rest harr.2.2 hms.2 old.2) (fun _ => done_guardFree _)

end

theorem Members.guardTransparent (ms : Members) (harr : ms.ArraysBelow (2^62)) (hms : ms.guardSound = true) :
    ms.GuardTransparent := by
  intro old b hb v r
  refine ⟨decodeInto_unguarded ms harr old b v r, fun h => ?_⟩
  unfold Members.decodeInto at h ⊢
  cases hn : CdrReader.new b with
  | error e => simp [hn] at h
  | ok r₀ =>
    rw [hn] at h
    obtain ⟨hin, rfl⟩ := new_inside hn
    exact ms.deserialize_guardFree harr hms old ⟨b, 4⟩ r v ⟨hin, hb⟩ h

end Sound

section Probe

def Shape.probe {T : Type} (count : ℕ) (elem : T) : (shape : Shape) → shape.Val T
  | .scalar => elem
  | .seq => List.replicate count elem
  | .array n => List.Vector.replicate n elem

mutual

def RosType.probe (n : ℕ) : (t : RosType) → t.Val
  | .prim p => p.zero
  | .string => ([] : List UInt8)
  | .nested _ _ ms => ms.probe n

/-- A value that puts `n` elements into every sequence whose elements may be
empty, and one into every other. -/
def Members.probe (n : ℕ) : (ms : Members) → ms.Val
  | .nil => ()
  | .cons _ shape t rest => (shape.probe (bif t.needsByte then 1 else n) (t.probe n), rest.probe n)

end

/-- Padding and length of a sequence of one; padding of an array. -/
def Shape.weight (elem : ℕ) : Shape → ℕ
  | .scalar => elem
  | .seq => 14 + elem
  | .array n => 7 + n*elem

mutual

def RosType.weight : RosType → ℕ
  | .prim _ => 15
  | .string => 8
  | .nested _ _ ms => ms.weight

/-- A bound on the bytes a probe takes, however many elements it counts. -/
def Members.weight : Members → ℕ
  | .nil => 0
  | .cons _ shape t rest => shape.weight t.weight + rest.weight

end

mutual

theorem RosType.probe_fits {n : ℕ} (hn : n < 2^32) (t : RosType) : t.Fits StringFits (t.probe n) := by
  cases t with
  | prim p => trivial
  | string =>
    change ([] : List UInt8).length + 1 < 2^32
    decide
  | nested package name ms => exact Members.probe_fits hn ms

theorem Members.probe_fits {n : ℕ} (hn : n < 2^32) (ms : Members) : ms.Fits StringFits (ms.probe n) := by
  cases ms with
  | nil => trivial
  | cons name shape t rest =>
    have helem := RosType.probe_fits hn t
    refine ⟨?_, Members.probe_fits hn rest⟩
    cases shape with
    | scalar => exact helem
    | seq =>
      refine ⟨?_, fun e he => (List.eq_of_mem_replicate he) ▸ helem⟩
      change (List.replicate _ _).length < 2^32
      rw [List.length_replicate]
      cases t.needsByte with
      | true => exact (by decide : 1 < 2^32)
      | false => exact hn
    | array k => exact fun e he => (List.eq_of_mem_replicate he) ▸ helem

end

/-- Alignment to a size that divides eight does not pass a multiple of eight. -/
theorem padding_within {a offset bound : ℕ} (ha : a ∣ 8) (hb : 8 ∣ bound) (h : offset ≤ bound) :
    offset + padding a offset ≤ bound := by
  have hpos : 0 < a := Nat.pos_of_dvd_of_pos ha (by decide)
  have hmod := padding_aligned a offset hpos
  have hlt := padding_lt a offset hpos
  obtain ⟨k, hk⟩ := ha.trans hb
  obtain ⟨q, hq⟩ := Nat.dvd_of_mod_eq_zero hmod
  by_contra hover
  have hqk : k < q := by
    refine lt_of_mul_lt_mul_left ?_ (Nat.zero_le a)
    omega
  have hstep : a*(k + 1) ≤ a*q := Nat.mul_le_mul_left a hqk
  rw [Nat.mul_add, Nat.mul_one] at hstep
  omega

theorem CdrWriter.payloadOffset_alignTo (w : CdrWriter) (n : ℕ) :
    (w.alignTo n).payloadOffset = w.payloadOffset + padding n w.payloadOffset := by
  rw [CdrWriter.alignTo, CdrWriter.payloadOffset_writeBytes, List.length_replicate]

theorem alignTo_within {a bound : ℕ} (ha : a ∣ 8) (hb : 8 ∣ bound) {w : CdrWriter} (h : w.payloadOffset ≤ bound) :
    (w.alignTo a).payloadOffset ≤ bound := by
  rw [CdrWriter.payloadOffset_alignTo]
  exact padding_within ha hb h

theorem writeEach_within {T : Type} {elem : T → CdrWriter → CdrWriter} {bound : ℕ}
    (helem : ∀ e w, w.payloadOffset ≤ bound → (elem e w).payloadOffset ≤ bound) (l : List T) (w : CdrWriter)
    (h : w.payloadOffset ≤ bound) : (writeEach elem l w).payloadOffset ≤ bound := by
  induction l generalizing w with
  | nil => exact h
  | cons e l ih => exact ih (elem e w) (helem e w h)

mutual

theorem RosType.serialize_within (t : RosType) (ht : t.needsByte = false) {bound : ℕ} (hb : 8 ∣ bound)
    (v : t.Val) (w : CdrWriter) (h : w.payloadOffset ≤ bound) : (t.serialize v w).payloadOffset ≤ bound := by
  cases t with
  | prim p => cases ht
  | string => cases ht
  | nested package name ms => exact Members.serialize_within ms ht hb v w h

/-- A type that needs no byte writes none past the next multiple of eight, no
matter how often it is written. -/
theorem Members.serialize_within (ms : Members) (hms : ms.needsByte = false) {bound : ℕ} (hb : 8 ∣ bound)
    (v : ms.Val) (w : CdrWriter) (h : w.payloadOffset ≤ bound) : (ms.serialize v w).payloadOffset ≤ bound := by
  cases ms with
  | nil => exact h
  | cons name shape t rest =>
    simp only [Members.needsByte, Bool.or_eq_false_iff] at hms
    refine Members.serialize_within rest hms.2 hb v.2 _ ?_
    cases shape with
    | scalar => exact RosType.serialize_within t hms.1 hb v.1 w h
    | seq => cases hms.1
    | array n =>
      simp only [Shape.needsByte, Bool.and_eq_false_iff, bne_eq_false_iff_eq] at hms
      obtain ⟨v, vs⟩ := v
      change List.Vector t.Val n at v
      have hloop : (writeEach t.serialize v.toList w).payloadOffset ≤ bound := by
        rcases hms.1 with rfl | ht
        · rw [List.Vector.eq_nil v]
          exact h
        · exact writeEach_within (fun e w hw => RosType.serialize_within t ht hb e w hw) v.toList w h
      cases t with
      | prim p =>
        obtain rfl : n = 0 := hms.1.resolve_right nofun
        rw [List.Vector.eq_nil v]
        change ((w.alignTo p.align).writeBytes []).payloadOffset ≤ bound
        rw [CdrWriter.payloadOffset_writeBytes]
        exact alignTo_within (p.align_eq_sizeof ▸ p.sizeof_dvd) hb h
      | string => exact hloop
      | nested package name ms => exact hloop

end

section Weight

theorem writePrim_weight (p : Prim) (v : p.Val) (w : CdrWriter) :
    (CdrWriter.writePrim p v w).payloadOffset ≤ w.payloadOffset + 15 := by
  have hpad := padding_lt p.sizeof w.payloadOffset p.sizeof_pos
  have hle := p.sizeof_le
  rw [CdrWriter.writePrim_eq_writeScalar, CdrWriter.writeScalar, CdrWriter.writeAligned,
    CdrWriter.payloadOffset_writeBytes, CdrWriter.payloadOffset_alignTo, Prim.toBytes_length]
  omega

theorem writeLength_weight (n : BitVec 32) (w : CdrWriter) :
    ((w.alignTo 4).writeUint32 n).payloadOffset ≤ w.payloadOffset + 7 := by
  have hpad := padding_lt 4 w.payloadOffset (by decide)
  rw [writeUint32_alignTo]
  change ((w.alignTo 4).writeBytes (LittleEndian.toBytes 4 n.toNat)).payloadOffset ≤ _
  rw [CdrWriter.payloadOffset_writeBytes, CdrWriter.payloadOffset_alignTo, LittleEndian.toBytes_length]
  omega

theorem writeEach_weight {T : Type} {elem : T → CdrWriter → CdrWriter} {e : T} {k : ℕ}
    (helem : ∀ w, (elem e w).payloadOffset ≤ w.payloadOffset + k) (n : ℕ) (w : CdrWriter) :
    (writeEach elem (List.replicate n e) w).payloadOffset ≤ w.payloadOffset + n*k := by
  induction n generalizing w with
  | zero => simp [writeEach]
  | succ n ih =>
    have hhead := helem w
    have htail := ih (elem e w)
    have hsum : (n + 1)*k = k + n*k := by ring
    rw [List.replicate_succ, writeEach, List.foldl_cons, ← writeEach]
    omega

theorem serializeSeqBody_eq_loop (t : RosType) (l : List t.Val) (w : CdrWriter) :
    serializeSeqBody t t.serialize l w = writeEach t.serialize l w := by
  cases t with
  | prim p => exact serializePrimSeq_eq_loop p l w
  | string => rfl
  | nested package name ms => rfl

theorem probe_seq_weight (n : ℕ) {t : RosType}
    (ht : ∀ w, (t.serialize (t.probe n) w).payloadOffset ≤ w.payloadOffset + t.weight) (w : CdrWriter) :
    (emitSerialize t t.serialize .seq (Shape.probe (bif t.needsByte then 1 else n) (t.probe n) .seq)
      w).payloadOffset ≤ w.payloadOffset + (14 + t.weight) := by
  change (serializeSeqBody t t.serialize (List.replicate _ (t.probe n)) _).payloadOffset ≤ _
  rw [serializeSeqBody_eq_loop]
  generalize hu : (w.alignTo 4).writeUint32 _ = u
  have hlen : u.payloadOffset ≤ w.payloadOffset + 7 := hu ▸ writeLength_weight _ w
  cases hneeds : t.needsByte with
  | true =>
    have hone := writeEach_weight ht 1 u
    simp only [cond_true] at hone ⊢
    omega
  | false =>
    have hpad := padding_lt 8 u.payloadOffset (by decide)
    have hbound : 8 ∣ u.payloadOffset + padding 8 u.payloadOffset :=
      Nat.dvd_of_mod_eq_zero (padding_aligned 8 u.payloadOffset (by decide))
    have hwithin := writeEach_within (fun e w hw => t.serialize_within hneeds hbound e w hw)
      (List.replicate (bif false then 1 else n) (t.probe n)) u (Nat.le_add_right _ _)
    omega

theorem probe_array_weight (n k : ℕ) {t : RosType}
    (ht : ∀ w, (t.serialize (t.probe n) w).payloadOffset ≤ w.payloadOffset + t.weight) (w : CdrWriter) :
    (emitSerialize t t.serialize (.array k) (List.Vector.replicate k (t.probe n)) w).payloadOffset ≤
      w.payloadOffset + (7 + k*t.weight) := by
  have hloop := writeEach_weight ht k w
  cases t with
  | prim p =>
    change (serializePrimArray p (List.replicate k p.zero) w).payloadOffset ≤ _
    rcases Nat.eq_zero_or_pos k with rfl | hk
    · have hpad := padding_lt p.align w.payloadOffset (Decoder.align_range p).1
      have hle := (Decoder.align_range p).2
      change ((w.alignTo p.align).writeBytes []).payloadOffset ≤ _
      rw [CdrWriter.payloadOffset_writeBytes, CdrWriter.payloadOffset_alignTo, List.length_nil]
      omega
    · rw [serializePrimArray_eq_loop p _ (by simp; omega)]
      exact hloop.trans (by omega)
  | string => exact hloop.trans (by omega)
  | nested package name ms => exact hloop.trans (by omega)

mutual

theorem RosType.probe_weight (n : ℕ) (t : RosType) (w : CdrWriter) :
    (t.serialize (t.probe n) w).payloadOffset ≤ w.payloadOffset + t.weight := by
  cases t with
  | prim p => exact writePrim_weight p p.zero w
  | string =>
    have hpad := padding_lt 4 w.payloadOffset (by decide)
    have hlen := writeString_length [] w
    have := w.header_le
    change (CdrWriter.writeString [] w).payloadOffset ≤ w.payloadOffset + 8
    rw [CdrWriter.payloadOffset, hlen, CdrWriter.payloadOffset]
    rw [CdrWriter.payloadOffset] at hpad
    simp only [List.length_nil]
    omega
  | nested package name ms => exact Members.probe_weight n ms w

/-- The size of a probe does not depend on the count it carries. -/
theorem Members.probe_weight (n : ℕ) (ms : Members) (w : CdrWriter) :
    (ms.serialize (ms.probe n) w).payloadOffset ≤ w.payloadOffset + ms.weight := by
  cases ms with
  | nil => exact le_rfl
  | cons name shape t rest =>
    have ht (u : CdrWriter) := RosType.probe_weight n t u
    have hrest := Members.probe_weight n rest
      (emitSerialize t t.serialize shape (shape.probe (bif t.needsByte then 1 else n) (t.probe n)) w)
    have hhead : (emitSerialize t t.serialize shape
        (shape.probe (bif t.needsByte then 1 else n) (t.probe n)) w).payloadOffset ≤
        w.payloadOffset + shape.weight t.weight := by
      cases shape with
      | scalar => exact ht w
      | seq => exact probe_seq_weight n ht w
      | array k => exact probe_array_weight n k ht w
    simp only [Members.weight]
    exact hrest.trans (by omega)

end

end Weight

end Probe

section Refusal
variable {α β : Type}

/-- With fewer than `n` bytes left, `p` accepts nothing in front of what `s`
wrote from the same place. -/
def Refuses (n : ℕ) (p : Decoder α) (s : CdrWriter → CdrWriter) : Prop :=
  ∀ (w : CdrWriter) (r : CdrReader) (out : List UInt8), (s w).buf = w.buf ++ out → StandsBefore r w out →
    r.buf.length < r.pos + n → ∀ res, p.run (readStep true) r ≠ .ok res

/-- Read back without the guards, and never in vain. -/
abbrev ReadsBackUnguarded (p : Decoder α) (v : α) (s : CdrWriter → CdrWriter) : Prop :=
  ReadsBack false (fun _ => False) p v s

namespace Refuses
variable {n : ℕ} {p : Decoder α} {k : α → Decoder β} {v : α} {u : β} {s s' : CdrWriter → CdrWriter}

theorem bind_left (hp : ReadsBackUnguarded p v s) (hk : ReadsBackUnguarded (k v) u s') (h : Refuses n p s) :
    Refuses n (p.bind k) (fun w => s' (s w)) := by
  intro w r out hout hr hshort res hres
  obtain ⟨out₁, hout₁, -⟩ := hp w
  obtain ⟨out₂, hout₂, -⟩ := hk (s w)
  obtain rfl : out = out₁ ++ out₂ := by
    rw [hout₂, hout₁, List.append_assoc] at hout
    exact (List.append_cancel_left hout).symm
  obtain ⟨a, x, hfirst, -⟩ := Prog.run_bind_eq_ok _ hres
  exact h w r out₁ hout₁ hr.left hshort (a, x) hfirst

theorem bind_right (hp : ReadsBackUnguarded p v s) (hk : ReadsBackUnguarded (k v) u s')
    (h : Refuses n (k v) s') : Refuses n (p.bind k) (fun w => s' (s w)) := by
  intro w r out hout hr hshort res hres
  obtain ⟨out₁, hout₁, hrun⟩ := hp.exact w
  obtain ⟨out₂, hout₂, -⟩ := hk (s w)
  obtain rfl : out = out₁ ++ out₂ := by
    rw [hout₂, hout₁, List.append_assoc] at hout
    exact (List.append_cancel_left hout).symm
  obtain ⟨a, x, hfirst, hrest⟩ := Prog.run_bind_eq_ok _ hres
  -- a guarded run that completes is the unguarded one
  have hsame : p.run (readStep true) r = p.run (readStep false) r := by
    refine (run_guarded p r).resolve_right (fun hfalse => ?_)
    rw [hfirst] at hfalse
    cases hfalse
  rw [hsame, hrun r hr.left] at hfirst
  obtain ⟨rfl, rfl⟩ := Prod.mk.inj (Except.ok.inj hfirst)
  refine h (s w) _ out₂ hout₂ (hr.right hout₁) ?_ res hrest
  change r.buf.length < r.pos + out₁.length + n
  omega

theorem guard_body {p : Decoder α} (h : Refuses n p s) (m : ℕ) :
    Refuses n ((Decoder.guardRemaining m).bind (fun _ => p)) s := by
  intro w r out hout hr hshort res hres
  obtain ⟨⟨⟩, x, hguard, hbody⟩ := Prog.run_bind_eq_ok _ hres
  obtain rfl : x = r := by
    rw [Decoder.run_guardRemaining, CdrReader.guardRemaining] at hguard
    split_ifs at hguard
    exact (Prod.mk.inj (Except.ok.inj hguard)).2.symm
  exact h w x out hout hr hshort res hbody

/-- A count above what is left is refused. -/
theorem guard_count (p : Decoder α) : Refuses n ((Decoder.guardRemaining n).bind (fun _ => p)) s := by
  intro w r out _ hr hshort res hres
  obtain ⟨⟨⟩, x, hguard, -⟩ := Prog.run_bind_eq_ok _ hres
  have hle := hr.pos_le
  rw [Decoder.run_guardRemaining, CdrReader.guardRemaining, hr.remaining_eq, if_pos (by omega)] at hguard
  cases hguard

end Refuses

theorem RosType.reads_back_probe {n : ℕ} (hn : n < 2^32) (t : RosType) (old : t.Val) :
    ReadsBackUnguarded (t.deserialize old) (t.probe n) (t.serialize (t.probe n)) :=
  RosType.reads_back (g := false) (fun s => ReadsBack.readString s) t (fun h => by cases h) (t.probe n)
    (t.probe_fits hn) old

theorem RosType.reads_back_probes {n : ℕ} (hn : n < 2^32) (t : RosType) :
    ∀ v, v = t.probe n → ∀ old, ReadsBackUnguarded (t.deserialize old) v (t.serialize v) := by
  rintro _ rfl old
  exact t.reads_back_probe hn old

theorem Members.reads_back_probe {n : ℕ} (hn : n < 2^32) (ms : Members) (old : ms.Val) :
    ReadsBackUnguarded (ms.deserialize old) (ms.probe n) (ms.serialize (ms.probe n)) :=
  Members.reads_back (g := false) (fun s => ReadsBack.readString s) ms (fun h => by cases h) (ms.probe n)
    (ms.probe_fits hn) old

theorem times_one_refuses {n : ℕ} {elem : Decoder α} {e : α} {ser : α → CdrWriter → CdrWriter}
    (hread : ReadsBackUnguarded elem e (ser e)) (h : Refuses n elem (ser e)) :
    Refuses n (elem.times 1) (writeEach ser [e]) := by
  have hdone : ReadsBackUnguarded (.done [e]) [e] id := ReadsBack.done [e]
  have hloop := Refuses.bind_left (k := fun a => .done [a]) hread hdone h
  exact hloop

theorem forVec_refuses {n : ℕ} {f : α → Decoder β} {e : β} {ser : β → CdrWriter → CdrWriter}
    (hread : ∀ old, ReadsBackUnguarded (f old) e (ser e)) (h : ∀ old, Refuses n (f old) (ser e)) {k : ℕ}
    (hk : k ≠ 0) (olds : List.Vector α k) :
    Refuses n (Prog.forVec f olds) (writeEach ser (List.replicate k e)) := by
  obtain ⟨m, rfl⟩ := Nat.exists_eq_succ_of_ne_zero hk
  have hrest : ReadsBackUnguarded (Prog.forVec f olds.tail) (List.Vector.replicate m e)
      (writeEach ser (List.replicate m e)) :=
    ReadsBack.forVec olds.tail (List.Vector.replicate m e)
      (fun v hv old => (List.eq_of_mem_replicate hv) ▸ hread old)
  have hloop := Refuses.bind_left (k := fun b => (Prog.forVec f olds.tail).bind (fun bs => .done (b ::ᵥ bs)))
    (hread olds.head) (hrest.map (fun bs => e ::ᵥ bs) rfl) (h olds.head)
  exact hloop

theorem seq_refuses {n : ℕ} (hn : n < 2^32) {t : RosType}
    (ht : t.guardSound = false → ∀ old, Refuses n (t.deserialize old) (t.serialize (t.probe n)))
    (hbad : Shape.seq.guardSound t.needsByte t.guardSound = false) (old : List t.Val) :
    Refuses n (emitDeserialize t t.deserialize .seq old)
      (emitSerialize t t.serialize .seq (Shape.probe (bif t.needsByte then 1 else n) (t.probe n) .seq)) := by
  let count := bif t.needsByte then 1 else n
  let l := List.replicate count (t.probe n)
  have hcount : count < 2^32 := by
    cases hneeds : t.needsByte <;> simp only [count, hneeds, cond_true, cond_false] <;> omega
  have hlen : (BitVec.ofNat 32 l.length).toNat = count := by
    rw [BitVec.toNat_ofNat, List.length_replicate, Nat.mod_eq_of_lt hcount]
  have hbody : ReadsBackUnguarded (deserializeSeqBody t t.deserialize t.zero count) l
      (serializeSeqBody t t.serialize l) := by
    have h := ReadsBack.seqBody (t.reads_back_probes hn) t.zero l (fun v hv => List.eq_of_mem_replicate hv)
    rwa [List.length_replicate] at h
  have hguard : ReadsBackUnguarded ((Decoder.guardRemaining count).bind
      (fun _ => deserializeSeqBody t t.deserialize t.zero count)) l (serializeSeqBody t t.serialize l) :=
    ReadsBack.guardRemaining count (fun h => by cases h) hbody
  have hrefuse : Refuses n ((Decoder.guardRemaining count).bind
      (fun _ => deserializeSeqBody t t.deserialize t.zero count)) (serializeSeqBody t t.serialize l) := by
    cases hneeds : t.needsByte with
    | false =>
      have hc : count = n := by simp only [count, hneeds, cond_false]
      rw [hc]
      exact Refuses.guard_count _
    | true =>
      have hc : count = 1 := by simp only [count, hneeds, cond_true]
      have hsound : t.guardSound = false := by simpa [Shape.guardSound, hneeds] using hbad
      refine Refuses.guard_body ?_ count
      rw [show l = [t.probe n] by simp only [l, hc, List.replicate_one], hc]
      cases t with
      | prim p => cases hsound
      | string => cases hsound
      | nested package name ms =>
        exact times_one_refuses (RosType.reads_back_probe hn _ _) (ht hsound _)
  rw [← hlen] at hguard hrefuse
  have hlength : ReadsBackUnguarded Decoder.readUint32 (BitVec.ofNat 32 l.length) _ :=
    ReadsBack.readUint32 (BitVec.ofNat 32 l.length)
  have hskip : ReadsBackUnguarded (Decoder.alignTo 4) () _ := ReadsBack.alignTo 4
  have hcounted := Refuses.bind_right (k := fun m => (Decoder.guardRemaining m.toNat).bind
    (fun _ => deserializeSeqBody t t.deserialize t.zero m.toNat)) hlength hguard hrefuse
  have hall := Refuses.bind_right (k := fun _ => Decoder.readUint32.bind (fun m =>
    (Decoder.guardRemaining m.toNat).bind (fun _ => deserializeSeqBody t t.deserialize t.zero m.toNat)))
    hskip (hlength.bind hguard) hcounted
  exact hall

/-- The member a probe fills reads back, whatever its shape. -/
theorem emit_reads_back_probe {n count : ℕ} (hn : n < 2^32) (hcount : count < 2^32) (t : RosType) (shape : Shape)
    (old : shape.Val t.Val) :
    ReadsBackUnguarded (emitDeserialize t t.deserialize shape old) (shape.probe count (t.probe n))
      (emitSerialize t t.serialize shape (shape.probe count (t.probe n))) := by
  refine ReadsBack.emit (t.reads_back_probes hn) shape (fun h => by cases h) _ old ?_
  cases shape with
  | scalar => rfl
  | seq =>
    refine ⟨?_, fun e he => List.eq_of_mem_replicate he⟩
    change (List.replicate count (t.probe n)).length < 2^32
    rwa [List.length_replicate]
  | array k => exact fun e he => List.eq_of_mem_replicate he

theorem emit_refuses {n : ℕ} (hn : n < 2^32) {t : RosType}
    (ht : t.guardSound = false → ∀ old, Refuses n (t.deserialize old) (t.serialize (t.probe n)))
    (shape : Shape) (hbad : shape.guardSound t.needsByte t.guardSound = false) (old : shape.Val t.Val) :
    Refuses n (emitDeserialize t t.deserialize shape old)
      (emitSerialize t t.serialize shape (shape.probe (bif t.needsByte then 1 else n) (t.probe n))) := by
  cases shape with
  | scalar => exact ht hbad old
  | seq => exact seq_refuses hn ht hbad old
  | array k =>
    simp only [Shape.guardSound, Bool.or_eq_false_iff, beq_eq_false_iff_ne] at hbad
    cases t with
    | prim p => cases hbad.2
    | string => cases hbad.2
    | nested package name ms =>
      exact forVec_refuses (fun o => RosType.reads_back_probe hn _ o) (ht hbad.2) hbad.1 old

mutual

theorem RosType.probe_refused {n : ℕ} (hn : n < 2^32) (t : RosType) (ht : t.guardSound = false) (old : t.Val) :
    Refuses n (t.deserialize old) (t.serialize (t.probe n)) := by
  cases t with
  | prim p => cases ht
  | string => cases ht
  | nested package name ms => exact Members.probe_refused hn ms ht old

/-- In a schema that breaks the guard's assumption, a probe whose count exceeds
its size is refused. -/
theorem Members.probe_refused {n : ℕ} (hn : n < 2^32) (ms : Members) (hms : ms.guardSound = false)
    (old : ms.Val) : Refuses n (ms.deserialize old) (ms.serialize (ms.probe n)) := by
  cases ms with
  | nil => cases hms
  | cons name shape t rest =>
    have hcount : (bif t.needsByte then 1 else n) < 2^32 := by
      cases t.needsByte <;> simp only [cond_true, cond_false] <;> omega
    have hhead := emit_reads_back_probe hn hcount t shape old.1
    have hrest := (rest.reads_back_probe hn old.2).map
      (fun us => (shape.probe (bif t.needsByte then 1 else n) (t.probe n), us)) rfl
    simp only [Members.guardSound, Bool.and_eq_false_iff] at hms
    rcases hms with hshape | htail
    · have h := emit_refuses hn (fun ht o => RosType.probe_refused hn t ht o) shape hshape old.1
      have hall := Refuses.bind_left (k := fun v => (rest.deserialize old.2).bind (fun vs => .done (v, vs)))
        hhead hrest h
      exact hall
    · have h := Refuses.bind_left (k := fun vs => .done
        (shape.probe (bif t.needsByte then 1 else n) (t.probe n), vs))
        (rest.reads_back_probe hn old.2) (ReadsBack.done _) (Members.probe_refused hn rest htail old.2)
      have hall := Refuses.bind_right (k := fun v => (rest.deserialize old.2).bind (fun vs => .done (v, vs)))
        hhead hrest h
      exact hall

end

/-- Without the guards every schema accepts what it wrote. -/
theorem Members.decodeInto_encode_unguarded (ms : Members) (v : ms.Val) (hv : ms.Fits StringFits v) (old : ms.Val)
    (hlen : (ms.encode v).length < 2^64) :
    ms.decodeInto false old (ms.encode v) = .ok (v, ⟨ms.encode v, (ms.encode v).length⟩) := by
  have hread : ReadsBackUnguarded (ms.deserialize old) v (ms.serialize v) :=
    Members.reads_back (g := false) (fun s => ReadsBack.readString s) ms (fun h => by cases h) v hv old
  obtain ⟨out, hout, hrun⟩ := hread.exact CdrWriter.new
  have henc : ms.encode v = CdrWriter.new.buf ++ out := hout
  rw [henc] at hlen ⊢
  have hstands : StandsBefore ⟨CdrWriter.new.buf ++ out, 4⟩ CdrWriter.new out :=
    ⟨rfl, by simp [CdrWriter.new], ⟨[], by simp [CdrWriter.new]⟩, hlen⟩
  rw [Members.decodeInto, new_header, List.length_append]
  exact hrun _ hstands

theorem Members.probe_length (n : ℕ) (ms : Members) : (ms.encode (ms.probe n)).length ≤ 4 + ms.weight := by
  have hweight := ms.probe_weight n CdrWriter.new
  have hheader := (ms.serialize (ms.probe n) CdrWriter.new).header_le
  change (ms.encode (ms.probe n)).length - 4 ≤ 0 + ms.weight at hweight
  omega

/-- A count above the size of the probe that carries it is refused. -/
theorem Members.decodeInto_probe_refused (ms : Members) (hsize : ms.weight < 2^32 - 1)
    (hms : ms.guardSound = false) (old : ms.Val) (res : ms.Val × CdrReader) :
    ms.decodeInto true old (ms.encode (ms.probe (ms.weight + 1))) ≠ .ok res := by
  have hn : ms.weight + 1 < 2^32 := by omega
  obtain ⟨out, hout⟩ := ms.serialize_extends (ms.probe (ms.weight + 1)) CdrWriter.new
  have henc : ms.encode (ms.probe (ms.weight + 1)) = CdrWriter.new.buf ++ out := hout.symm
  have hlen := ms.probe_length (ms.weight + 1)
  rw [henc] at hlen ⊢
  have hstands : StandsBefore ⟨CdrWriter.new.buf ++ out, 4⟩ CdrWriter.new out :=
    ⟨rfl, by simp [CdrWriter.new], ⟨[], by simp [CdrWriter.new]⟩, by
      change (CdrWriter.new.buf ++ out).length < 2^64
      omega⟩
  rw [Members.decodeInto, new_header]
  refine ms.probe_refused hn hms old CdrWriter.new _ out hout.symm hstands ?_ res
  change (CdrWriter.new.buf ++ out).length < 4 + (ms.weight + 1)
  omega

theorem Members.guardSound_of_transparent (ms : Members) (hsize : ms.weight < 2^32 - 1)
    (h : ms.GuardTransparent) : ms.guardSound = true := by
  by_contra hms
  have hlen := ms.probe_length (ms.weight + 1)
  have hopen := ms.decodeInto_encode_unguarded _ (ms.probe_fits (n := ms.weight + 1) (by omega)) ms.zero (by omega)
  have hclosed := (h ms.zero _ (by omega) _ _).mpr hopen
  exact ms.decodeInto_probe_refused hsize (Bool.not_eq_true _ ▸ hms) ms.zero _ hclosed

end Refusal

/-- When the length guards may be relied on. For generated code: when no
sequence that a decoder can come to has elements that may take no byte; a
schema with that flaw has a payload of its own that only the guard refuses,
unless its fixed arrays alone fill the range of a 32-bit count. For
`read_sequence`: when no element is read from zero bytes. -/
theorem length_guard_transparent_iff (ms : Members) (harr : ms.ArraysBelow (2^62)) {T : Type} (fresh : T)
    (elem : T → Decoder T) (hm : (elem fresh).Modest) :
    (ms.guardSound = true → ms.GuardTransparent ∧
      ∀ v : ms.Val, ms.Fits StringFits v → (ms.encode v).length < 2^63 →
        ms.decode true (ms.encode v) = .ok (v, ⟨ms.encode v, (ms.encode v).length⟩)) ∧
    (ms.weight < 2^32 - 1 → (ms.GuardTransparent ↔ ms.guardSound = true)) ∧
    ((∀ r : CdrReader, r.Ready → ∀ vs s, (readSequence fresh elem).run (readStep true) r = .ok (vs, s) ↔
        (readSequenceUnguarded fresh elem).run (readStep true) r = .ok (vs, s)) ↔
      ElementsMove (elem fresh)) := by
  refine ⟨fun hms => ⟨ms.guardTransparent harr hms, fun v hv hlen => ?_⟩, fun hsize => ?_, readSequence_guard_iff hm⟩
  · refine (ms.guardTransparent harr hms ms.zero _ hlen _ _).mpr ?_
    exact ms.decodeInto_encode_unguarded v hv ms.zero (hlen.trans (by decide))
  · exact ⟨ms.guardSound_of_transparent hsize, ms.guardTransparent harr⟩

/-- A message that holds any number of messages without fields. -/
def emptySeqSchema : Members := .cons "items" .seq (.nested "std_msgs" "Empty" .nil) .nil

theorem length_guard_transparent_iff_examples :
    ¬ emptySeqSchema.GuardTransparent ∧
    stringSchema.decode true (stringSchema.encode ([0x48, 0x69], ())) =
      .ok (([0x48, 0x69], ()), ⟨stringSchema.encode ([0x48, 0x69], ()), 11⟩) := by
  have hu32 : (Decoder.readPrim .uint32).Modest := Decoder.readPrim_modest .uint32
  constructor
  · have h := (length_guard_transparent_iff emptySeqSchema ⟨nofun, trivial, trivial⟩ (0 : BitVec 32)
      (fun _ => Decoder.readPrim .uint32) hu32).2.1 (by decide)
    exact fun ht => absurd (h.mp ht) (by decide)
  · have h := (length_guard_transparent_iff stringSchema ⟨nofun, trivial, trivial⟩ (0 : BitVec 32)
      (fun _ => Decoder.readPrim .uint32) hu32).1 (by decide)
    exact h.2 ([0x48, 0x69], ()) ⟨by change 3 < 2^32; decide, trivial⟩ (by decide)

/-- One element is announced and none of its zero bytes are missing, yet the
guard refuses what `serialize` wrote. -/
theorem empty_elements_refused :
    emptySeqSchema.encode ([()], ()) = [0, 1, 0, 0, 1, 0, 0, 0] ∧
    emptySeqSchema.decode false [0, 1, 0, 0, 1, 0, 0, 0] = .ok (([()], ()), ⟨[0, 1, 0, 0, 1, 0, 0, 0], 8⟩) ∧
    emptySeqSchema.decode true [0, 1, 0, 0, 1, 0, 0, 0] = .error .returnFalse :=
  ⟨rfl, rfl, rfl⟩

end Rcllite
