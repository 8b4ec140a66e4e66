import Rcllite.CdrBulk
import Rcllite.ServiceHeader

/-! What a message puts on the wire depends on the writer's offset only modulo
eight, so a service header of sixteen bytes leaves its encoding alone. -/
namespace Rcllite
open Interaction

/-- From any two offsets that agree modulo eight, `s` appends the same bytes. -/
def OffsetPeriodic (s : CdrWriter → CdrWriter) : Prop :=
  ∀ w w' : CdrWriter, w.payloadOffset % 8 = w'.payloadOffset % 8 →
    ∃ out, (s w).buf = w.buf ++ out ∧ (s w').buf = w'.buf ++ out

theorem CdrWriter.payloadOffset_of_buf {w w' : CdrWriter} {out : List UInt8} (h : w'.buf = w.buf ++ out) :
    w'.payloadOffset = w.payloadOffset + out.length := by
  have := w.header_le
  rw [CdrWriter.payloadOffset, h, List.length_append, CdrWriter.payloadOffset]
  omega

theorem padding_periodic {n : ℕ} (hn : n ∣ 8) {a b : ℕ} (h : a % 8 = b % 8) : padding n a = padding n b := by
  rw [padding, padding, ← Nat.mod_mod_of_dvd a hn, ← Nat.mod_mod_of_dvd b hn, h]

namespace OffsetPeriodic

theorem id : OffsetPeriodic (fun w => w) :=
  fun w w' _ => ⟨[], (List.append_nil w.buf).symm, (List.append_nil w'.buf).symm⟩

theorem comp {s s' : CdrWriter → CdrWriter} (hs : OffsetPeriodic s) (hs' : OffsetPeriodic s') :
    OffsetPeriodic (fun w => s' (s w)) := by
  intro w w' h
  obtain ⟨out, hw, hw'⟩ := hs w w' h
  have hnext : (s w).payloadOffset % 8 = (s w').payloadOffset % 8 := by
    rw [CdrWriter.payloadOffset_of_buf hw, CdrWriter.payloadOffset_of_buf hw', Nat.add_mod, h, ← Nat.add_mod]
  obtain ⟨out', hv, hv'⟩ := hs' (s w) (s w') hnext
  exact ⟨out ++ out', by rw [hv, hw, List.append_assoc], by rw [hv', hw', List.append_assoc]⟩

theorem writeBytes (data : List UInt8) : OffsetPeriodic (fun w => w.writeBytes data) :=
  fun _ _ _ => ⟨data, rfl, rfl⟩

theorem alignTo {n : ℕ} (hn : n ∣ 8) : OffsetPeriodic (fun w => w.alignTo n) :=
  fun w w' h => ⟨List.replicate (padding n w.payloadOffset) 0, rfl, by
    rw [CdrWriter.alignTo_buf, padding_periodic hn h]⟩

theorem writeAligned (data : List UInt8) {n : ℕ} (hn : n ∣ 8) :
    OffsetPeriodic (fun w => w.writeAligned data n) :=
  (alignTo hn).comp (writeBytes data)

theorem writePrim (p : Prim) (v : p.Val) : OffsetPeriodic (CdrWriter.writePrim p v) := by
  have heq : CdrWriter.writePrim p v = fun w => w.writeAligned (p.toBytes v) p.sizeof :=
    funext (CdrWriter.writePrim_eq_writeScalar p v)
  rw [heq]
  exact writeAligned (p.toBytes v) p.sizeof_dvd

theorem writeString (s : List UInt8) : OffsetPeriodic (CdrWriter.writeString s) :=
  (writePrim .uint32 _).comp (writeBytes (s ++ [0]))

theorem writeEach {T : Type} {elem : T → CdrWriter → CdrWriter} (helem : ∀ e, OffsetPeriodic (elem e))
    (f : List T) : OffsetPeriodic (writeEach elem f) := by
  induction f with
  | nil => exact id
  | cons e f ih => exact (helem e).comp ih

theorem primSeq (p : Prim) (f : List p.Val) : OffsetPeriodic (serializePrimSeq p f) := by
  rw [show serializePrimSeq p f = Rcllite.writeEach (CdrWriter.writePrim p) f from
    funext (serializePrimSeq_eq_loop p f)]
  exact writeEach (writePrim p) f

theorem primArray (p : Prim) (f : List p.Val) : OffsetPeriodic (serializePrimArray p f) := by
  have hdvd : p.align ∣ 8 := p.align_eq_sizeof ▸ p.sizeof_dvd
  exact (alignTo hdvd).comp (writeBytes _)

/-- One member, in each of its three shapes. -/
theorem emit {t : RosType} {elem : t.Val → CdrWriter → CdrWriter} (helem : ∀ e, OffsetPeriodic (elem e))
    (shape : Shape) (v : shape.Val t.Val) : OffsetPeriodic (emitSerialize t elem shape v) := by
  cases shape with
  | scalar => exact helem v
  | seq =>
    change List t.Val at v
    have hlen : OffsetPeriodic (fun w => (w.alignTo 4).writeUint32 (BitVec.ofNat 32 v.length)) :=
      (alignTo (by decide)).comp (writePrim .uint32 _)
    cases t with
    | prim p => exact hlen.comp (primSeq p v)
    | string => exact hlen.comp (writeEach helem v)
    | nested package name ms => exact hlen.comp (writeEach helem v)
  | array n =>
    cases t with
    | prim p => exact primArray p (List.Vector.toList v)
    | string => exact writeEach helem (List.Vector.toList v)
    | nested package name ms => exact writeEach helem (List.Vector.toList v)

end OffsetPeriodic

mutual

theorem RosType.serialize_periodic : (t : RosType) → (v : t.Val) → OffsetPeriodic (t.serialize v)
  | .prim p, v => OffsetPeriodic.writePrim p v
  | .string, v => OffsetPeriodic.writeString v
  | .nested _ _ ms, v => ms.serialize_periodic v

theorem Members.serialize_periodic : (ms : Members) → (v : ms.Val) → OffsetPeriodic (ms.serialize v)
  | .nil, _ => OffsetPeriodic.id
  | .cons _ shape t rest, v =>
    (OffsetPeriodic.emit t.serialize_periodic shape v.1).comp (rest.serialize_periodic v.2)

end

/-- The reader that has taken a service header stands behind its sixteen bytes. -/
theorem readServiceHeader_run (h : ServiceHeader) (t : List UInt8)
    (hlen : ((writeServiceHeader h CdrWriter.new).buf ++ t).length < 2^64) :
    readServiceHeader.run (readStep true) ⟨(writeServiceHeader h CdrWriter.new).buf ++ t, 4⟩ =
      .ok (h, ⟨(writeServiceHeader h CdrWriter.new).buf ++ t, 20⟩) := by
  obtain ⟨hdr, hhdr, hrun⟩ := (reads_back_serviceHeader h).exact CdrWriter.new
  have hsize : (writeServiceHeader h CdrWriter.new).buf.length = 20 := by
    simp [writeServiceHeader_buf]
  rw [hhdr, List.append_assoc] at hlen ⊢
  have hr : StandsBefore ⟨CdrWriter.new.buf ++ (hdr ++ t), 4⟩ CdrWriter.new hdr :=
    ⟨rfl, by simp [CdrWriter.new], ⟨t, by simp [CdrWriter.new]⟩, hlen⟩
  have hhdrlen : 4 + hdr.length = 20 := by
    rw [hhdr, List.length_append] at hsize
    exact hsize
  rw [hrun _ hr, hhdrlen]

/-- A framed message is the encapsulation, the two halves of the header and the
bytes the message has on its own, and the header reader stops in front of
them, whatever follows the payload. -/
theorem service_framing_transparent (ms : Members) (v : ms.Val) (h : ServiceHeader) :
    (∃ out, ms.encode v = [0, 1, 0, 0] ++ out ∧
      (ms.serialize v (writeServiceHeader h CdrWriter.new)).payload =
        [0, 1, 0, 0] ++ LittleEndian.toBytes 8 h.clientId.toNat ++
          LittleEndian.toBytes 8 h.sequence.toNat ++ out ∧
      ∀ t, ((ms.serialize v (writeServiceHeader h CdrWriter.new)).payload ++ t).length < 2^64 →
        ∃ r, CdrReader.new ((ms.serialize v (writeServiceHeader h CdrWriter.new)).payload ++ t) = .ok r ∧
          ∃ s : CdrReader, readServiceHeader.run (readStep true) r = .ok (h, s) ∧
            s.buf = r.buf ∧ s.buf.drop s.pos = out ++ t) ∧
    ∀ w w' : CdrWriter, w.payloadOffset % 8 = w'.payloadOffset % 8 →
      ∃ out, (ms.serialize v w).buf = w.buf ++ out ∧ (ms.serialize v w').buf = w'.buf ++ out := by
  refine ⟨?_, ms.serialize_periodic v⟩
  have hsize : (writeServiceHeader h CdrWriter.new).buf.length = 20 := by
    simp [writeServiceHeader_buf]
  have hoffset : CdrWriter.new.payloadOffset % 8 = (writeServiceHeader h CdrWriter.new).payloadOffset % 8 := by
    change 0 = ((writeServiceHeader h CdrWriter.new).buf.length - 4) % 8
    rw [hsize]
  obtain ⟨out, halone, hframed⟩ := ms.serialize_periodic v _ _ hoffset
  refine ⟨out, halone, by rw [CdrWriter.payload, hframed, writeServiceHeader_buf], fun t ht => ?_⟩
  rw [CdrWriter.payload, hframed, List.append_assoc] at ht ⊢
  have hnew : CdrReader.new ((writeServiceHeader h CdrWriter.new).buf ++ (out ++ t)) =
      .ok ⟨(writeServiceHeader h CdrWriter.new).buf ++ (out ++ t), 4⟩ := by
    rw [writeServiceHeader_buf]
    rfl
  refine ⟨_, hnew, _, readServiceHeader_run h (out ++ t) ht, rfl, ?_⟩
  exact List.drop_left' hsize

/-- The header of request 1 of client 7 in front of the string `Hi`. -/
theorem service_framing_transparent_string :
    ∃ r, CdrReader.new ((stringSchema.serialize ([0x48, 0x69], ())
        (writeServiceHeader ⟨7, 1⟩ CdrWriter.new)).payload ++ []) = .ok r ∧
      ∃ s : CdrReader, readServiceHeader.run (readStep true) r = .ok (⟨7, 1⟩, s) ∧ s.buf = r.buf := by
  obtain ⟨out, -, -, hread⟩ := (service_framing_transparent stringSchema ([0x48, 0x69], ()) ⟨7, 1⟩).1
  obtain ⟨r, hr, s, hs, hbuf, -⟩ := hread [] (by decide)
  exact ⟨r, hr, s, hs, hbuf⟩

end Rcllite
