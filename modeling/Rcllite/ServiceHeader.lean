import Rcllite.MsgRoundTrip

/-! The payload of a service request or reply: the encapsulation, the eight
byte client id, the eight byte sequence number and the message. -/
namespace Rcllite
open Interaction

structure ServiceHeader where
  clientId : BitVec 64
  sequence : BitVec 64
deriving DecidableEq, Repr

def writeServiceHeader (h : ServiceHeader) (w : CdrWriter) : CdrWriter :=
  (w.writeUint64 h.clientId).writeInt64 h.sequence

def readServiceHeader : Decoder ServiceHeader := do
  let clientId ← Decoder.readUint64
  let sequence ← Decoder.readInt64
  pure ⟨clientId, sequence⟩

/-- A message type together with the reason its codec may be relied on. `Ok`
singles out the values that fit the wire format. -/
structure MsgCodec (M : Type) where
  serialize : M → CdrWriter → CdrWriter
  deserialize : Decoder M
  Ok : M → Prop
  reads_back : ∀ m, Ok m → ReadsBack true (fun _ => False) deserialize m (serialize m)

/-- Every generated type is one. -/
def MsgCodec.ofMembers (ms : Members) (hs : ms.SeqElementsNonempty) : MsgCodec ms.Val where
  serialize := ms.serialize
  deserialize := ms.deserialize ms.zero
  Ok := ms.Fits StringFits
  reads_back m hm :=
    Members.reads_back (fun s => ReadsBack.readString s) ms (fun _ => hs) m hm ms.zero

/-- `raw_resize`: the sample grows to the next multiple of four. -/
def rawPad (requested : ℕ) : ℕ := (2^32 - requested % 2^32) % 2^32 % 4

def rawResize (payload : List UInt8) : List UInt8 :=
  payload ++ List.replicate (rawPad payload.length) 0

variable {M : Type} (codec : MsgCodec M)

/-- The sample that carries `m` under the header `h`. -/
def serviceSample (h : ServiceHeader) (m : M) : List UInt8 :=
  rawResize (codec.serialize m (writeServiceHeader h CdrWriter.new)).payload

/-- `CdrReader r(payload, size); read_service_header(r)`; the exceptions either
can throw end the handling of the sample. -/
def openSample (b : List UInt8) : Option (ServiceHeader × CdrReader) :=
  match CdrReader.new b with
  | .error _ => none
  | .ok r => (readServiceHeader.run (readStep true) r).toOption

/-- `M::deserialize(msg, r)` into a fresh message. -/
def readBody (r : CdrReader) : Option M :=
  match codec.deserialize.run (readStep true) r with
  | .ok (m, _) => some m
  | .error _ => none

theorem reads_back_serviceHeader (h : ServiceHeader) :
    ReadsBack true (fun _ => False) readServiceHeader h (writeServiceHeader h) := by
  have hid : ReadsBack true (fun _ => False) Decoder.readUint64 h.clientId
      (CdrWriter.writeUint64 h.clientId) := ReadsBack.readAligned .uint64 h.clientId
  have hseq : ReadsBack true (fun _ => False) Decoder.readInt64 h.sequence
      (CdrWriter.writeInt64 h.sequence) := ReadsBack.readAligned .int64 h.sequence
  have hrest : ReadsBack true (fun _ => False)
      (Decoder.readInt64.bind (fun s => .done (ServiceHeader.mk h.clientId s))) h
      (CdrWriter.writeInt64 h.sequence) := hseq.map (ServiceHeader.mk h.clientId) rfl
  exact hid.bind (k := fun i => Decoder.readInt64.bind (fun s => .done (ServiceHeader.mk i s))) hrest

/-- Encapsulation, client id and sequence number need no padding. -/
theorem writeServiceHeader_buf (h : ServiceHeader) : (writeServiceHeader h CdrWriter.new).buf =
    [0, 1, 0, 0] ++ LittleEndian.toBytes 8 h.clientId.toNat ++ LittleEndian.toBytes 8 h.sequence.toNat := by
  have hid : (CdrWriter.writeUint64 h.clientId CdrWriter.new).buf =
      [0, 1, 0, 0] ++ LittleEndian.toBytes 8 h.clientId.toNat := CdrWriter.writeUint64_buf h.clientId _
  have hoffset : (CdrWriter.writeUint64 h.clientId CdrWriter.new).payloadOffset = 8 := by
    rw [CdrWriter.payloadOffset, hid, List.length_append, LittleEndian.toBytes_length]
    rfl
  rw [writeServiceHeader, CdrWriter.writeInt64_buf, hoffset, hid]
  rfl

/-- A sample is understood as it was meant: header first, then the message. -/
theorem open_serviceSample (h : ServiceHeader) (m : M) (hm : codec.Ok m)
    (hlen : (serviceSample codec h m).length < 2^64) :
    ∃ r, openSample (serviceSample codec h m) = some (h, r) ∧ readBody codec r = some m := by
  obtain ⟨hdr, hhdr, hrun⟩ := (reads_back_serviceHeader h).exact CdrWriter.new
  obtain ⟨body, hbody, hrun'⟩ := (codec.reads_back m hm).exact (writeServiceHeader h CdrWriter.new)
  -- the padding of `raw_resize` is trailing data to both readers
  have hsample : ∃ t, serviceSample codec h m = CdrWriter.new.buf ++ ((hdr ++ body) ++ t) := by
    refine ⟨List.replicate (rawPad (codec.serialize m (writeServiceHeader h CdrWriter.new)).payload.length) 0, ?_⟩
    rw [serviceSample, rawResize, CdrWriter.payload, hbody, hhdr]
    simp only [List.append_assoc]
  obtain ⟨t, ht⟩ := hsample
  rw [ht] at hlen ⊢
  have hr : StandsBefore ⟨CdrWriter.new.buf ++ ((hdr ++ body) ++ t), 4⟩ CdrWriter.new (hdr ++ body) :=
    ⟨rfl, by simp [CdrWriter.new], ⟨t, by simp [CdrWriter.new]⟩, hlen⟩
  have hok := hrun _ hr.left
  have hok' := hrun' _ (hr.right hhdr)
  refine ⟨⟨CdrWriter.new.buf ++ ((hdr ++ body) ++ t), 4 + hdr.length⟩, ?_, ?_⟩
  · rw [openSample, new_header]
    dsimp only
    rw [hok]
    rfl
  · rw [readBody, hok']

/-- A service type with one `int64` each way. -/
def int64Codec : MsgCodec (Members.Val (.cons "value" .scalar (.prim .int64) .nil)) :=
  .ofMembers (.cons "value" .scalar (.prim .int64) .nil) ⟨nofun, trivial, trivial⟩

/-- The samples client 7 exchanges for its first request, 5 answered by 6. -/
def int64Exchange (value : UInt8) : List UInt8 :=
  [0, 1, 0, 0, 7, 0, 0, 0, 0, 0, 0, 0, 1, 0, 0, 0, 0, 0, 0, 0, value, 0, 0, 0, 0, 0, 0, 0]

example : serviceSample int64Codec ⟨7, 1⟩ (5#64, ()) = int64Exchange 5 := by decide +kernel

end Rcllite
