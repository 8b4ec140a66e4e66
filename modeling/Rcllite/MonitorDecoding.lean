import Rcllite.GraphMonitor
import Rcllite.MsgRoundTrip

/-! What arbitrary payloads do to the monitor thread. Its callbacks have no
handler, so whether it survives is decided by how the decoder reports a
malformed payload. -/
namespace Rcllite

variable {info log : Members} (gid : info.Val → Guid)

/-- What the monitor should make of a sample: record it if it decodes, and go
on unchanged if it does not. -/
def Monitor.absorb (m : Monitor info log) : MonitorSample → Monitor info log
  | .participant s => m.onParticipant s
  | .endpoint writer s => m.onEndpoint writer s
  | .discovery payload =>
    match info.decode true payload with
    | .ok (msg, _) => m.recordDiscovery gid msg
    | .error _ => m
  | .rosout payload =>
    match log.decode true payload with
    | .ok (msg, _) => m.recordLog msg
    | .error _ => m

/-- The payload decodes, or is turned down by `deserialize` returning `false`:
the reader throws nothing. -/
def Members.DecodesQuietly (ms : Members) (payload : List UInt8) : Prop :=
  ∀ e, ms.decode true payload = .error e → e = .returnFalse

/-- A builtin sample, or a payload that decodes quietly. -/
def MonitorSample.Quiet (info log : Members) : MonitorSample → Prop
  | .participant _ => True
  | .endpoint _ _ => True
  | .discovery payload => info.DecodesQuietly payload
  | .rosout payload => log.DecodesQuietly payload

theorem Members.decodesQuietly_cases (ms : Members) (payload : List UInt8) :
    ms.DecodesQuietly payload ∧ (∃ v, ms.decode true payload = .ok v) ∨
    ms.DecodesQuietly payload ∧ ms.decode true payload = .error .returnFalse ∨
    ¬ ms.DecodesQuietly payload ∧ ∃ e, e ≠ .returnFalse ∧ ms.decode true payload = .error e := by
  unfold Members.DecodesQuietly
  cases hd : ms.decode true payload with
  | ok v => exact Or.inl ⟨nofun, v, rfl⟩
  | error e =>
    right
    by_cases he : e = .returnFalse
    · left
      exact ⟨fun e' h => (Except.error.inj h) ▸ he, by rw [he]⟩
    · right
      exact ⟨fun h => he (h e rfl), e, he, rfl⟩

namespace Monitor
variable {gid}

theorem onDiscovery_error {payload : List UInt8} {e : Failure} (he : e ≠ .returnFalse)
    (hd : info.decode true payload = .error e) (m : Monitor info log) :
    m.onDiscovery gid payload = .error e := by
  unfold onDiscovery
  rw [hd]
  cases e with
  | returnFalse => exact absurd rfl he
  | error msg => rfl
  | outOfBounds => rfl

theorem onRosout_error {payload : List UInt8} {e : Failure} (he : e ≠ .returnFalse)
    (hd : log.decode true payload = .error e) (m : Monitor info log) : m.onRosout payload = .error e := by
  unfold onRosout
  rw [hd]
  cases e with
  | returnFalse => exact absurd rfl he
  | error msg => rfl
  | outOfBounds => rfl

/-- One sample: the monitor takes it in its stride, or an exception is on its
way. -/
theorem process_cases (gid : info.Val → Guid) (x : MonitorSample) (m : Monitor info log) :
    (x.Quiet info log ∧ m.process gid x = .ok (m.absorb gid x)) ∨
      (¬ x.Quiet info log ∧ ∃ e, m.process gid x = .error e) := by
  cases x with
  | participant s => exact Or.inl ⟨trivial, rfl⟩
  | endpoint writer s => exact Or.inl ⟨trivial, rfl⟩
  | discovery payload =>
    rcases info.decodesQuietly_cases payload with ⟨hq, v, hd⟩ | ⟨hq, hd⟩ | ⟨hnq, e, he, hd⟩
    · exact Or.inl ⟨hq, by simp only [process, onDiscovery, absorb, hd]⟩
    · exact Or.inl ⟨hq, by simp only [process, onDiscovery, absorb, hd]⟩
    · exact Or.inr ⟨hnq, e, onDiscovery_error he hd m⟩
  | rosout payload =>
    rcases log.decodesQuietly_cases payload with ⟨hq, v, hd⟩ | ⟨hq, hd⟩ | ⟨hnq, e, he, hd⟩
    · exact Or.inl ⟨hq, by simp only [process, onRosout, absorb, hd]⟩
    · exact Or.inl ⟨hq, by simp only [process, onRosout, absorb, hd]⟩
    · exact Or.inr ⟨hnq, e, onRosout_error he hd m⟩

theorem processAll_quiet (xs : List MonitorSample) (m : Monitor info log) :
    processAll gid xs m = (xs.foldl (fun m x => m.absorb gid x) m, none) ↔ ∀ x ∈ xs, x.Quiet info log := by
  induction xs generalizing m with
  | nil => simp [processAll]
  | cons x xs ih =>
    rw [processAll, List.foldl_cons, List.forall_mem_cons]
    rcases process_cases gid x m with ⟨hq, hok⟩ | ⟨hnq, e, he⟩
    · rw [hok]
      simp only [hq, true_and]
      exact ih (m.absorb gid x)
    · rw [he]
      simp [hnq]

end Monitor

/-- The monitor survives a run of polls, with every decodable sample recorded
and every other one without effect, exactly when no payload makes the decoder
throw. -/
theorem monitor_survives_iff (polls : List Poll) (m : Monitor info log) :
    m.run gid polls = ((polls.flatMap Poll.samples).foldl (fun m x => m.absorb gid x) m, none) ↔
      ∀ x ∈ polls.flatMap Poll.samples, x.Quiet info log := by
  rw [Monitor.run_eq]
  exact Monitor.processAll_quiet _ m

/-- `rmw_dds_common/msg/Gid` as of the humble release. -/
def gidSchema : Members := .cons "data" (.array 24) (.prim .char) .nil

/-- `rmw_dds_common/msg/NodeEntitiesInfo`. -/
def nodeEntitiesInfoSchema : Members :=
  .cons "node_namespace" .scalar .string <|
  .cons "node_name" .scalar .string <|
  .cons "reader_gid_seq" .seq (.nested "rmw_dds_common" "Gid" gidSchema) <|
  .cons "writer_gid_seq" .seq (.nested "rmw_dds_common" "Gid" gidSchema) .nil

/-- `rmw_dds_common/msg/ParticipantEntitiesInfo`. -/
def participantEntitiesInfoSchema : Members :=
  .cons "gid" .scalar (.nested "rmw_dds_common" "Gid" gidSchema) <|
  .cons "node_entities_info_seq" .seq
    (.nested "rmw_dds_common" "NodeEntitiesInfo" nodeEntitiesInfoSchema) .nil

theorem gidSchema_serialize_length (v : gidSchema.Val) (w : CdrWriter) :
    (gidSchema.serialize v w).buf.length = w.buf.length + 24 := by
  let data : List.Vector (Prim.Val .char) 24 := v.1
  have hser : (gidSchema.serialize v w).buf = (w.alignTo 1).buf ++ data.toList.flatMap Prim.char.toBytes := rfl
  have hlen := LittleEndian.flatMap_length Prim.char.toBytes 1 Prim.char.toBytes_length data.toList
  have hdata : data.toList.length = 24 := data.toList_length
  rw [hser, List.length_append, hlen, hdata, CdrWriter.alignTo_buf, padding_one, List.replicate_zero, List.append_nil]

theorem gidSchema_encodesByte : gidSchema.EncodesByte := by
  intro v w
  rw [gidSchema_serialize_length]
  omega

theorem participantEntitiesInfo_nonempty : participantEntitiesInfoSchema.SeqElementsNonempty := by
  have hgid : gidSchema.SeqElementsNonempty := ⟨nofun, trivial, trivial⟩
  have hnode : nodeEntitiesInfoSchema.SeqElementsNonempty :=
    ⟨nofun, trivial, nofun, trivial, fun _ => gidSchema_encodesByte, hgid, fun _ => gidSchema_encodesByte, hgid,
      trivial⟩
  exact ⟨nofun, hgid, fun _ => Members.encodesByte_cons (t := .string) _ trivial _, hnode, trivial⟩

/-- `std::memcpy(key.v, msg.gid.data.data(), sizeof(key.v))`. -/
def gidKey (msg : participantEntitiesInfoSchema.Val) : Guid :=
  let data : List.Vector (BitVec 8) 24 := msg.1.1
  ⟨(data.toList.take 16).map UInt8.ofBitVec, by simp⟩

/-- Four bytes with another encapsulation identifier, in front of a well-formed
announcement: the thread dies and the announcement is lost. -/
theorem monitor_killed_by_bad_encapsulation :
    let good := participantEntitiesInfoSchema.encode participantEntitiesInfoSchema.zero
    let polls := [Poll.discovery [⟨[0, 0, 0, 0], true⟩, ⟨good, true⟩]]
    let m : Monitor participantEntitiesInfoSchema .nil := .new
    m.run gidKey polls = (m, some (.error "unsupported CDR encapsulation (expected CDR_LE)")) ∧
      m.run gidKey polls ≠ ((polls.flatMap Poll.samples).foldl (fun m x => m.absorb gidKey x) m, none) := by
  intro good polls m
  have hrun : m.run gidKey polls =
      (m, some (.error "unsupported CDR encapsulation (expected CDR_LE)")) := by
    rw [Monitor.run_eq]
    rfl
  refine ⟨hrun, ?_⟩
  rw [hrun]
  intro h
  cases congrArg Prod.snd h

end Rcllite
