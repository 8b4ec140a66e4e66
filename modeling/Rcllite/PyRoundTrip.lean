import Rcllite.PyComposition
import Rcllite.PyMessages

/-! `from_cdr` after `serialize`, for every shipped message class. A class is the
list of calls its `_write` makes; `_read` replays them with counts of its own. -/
namespace Rcllite.Py
open Interaction Cursors

/-- A `_write` that makes the given calls. -/
def Writes (write : CdrWriter → Except PyError CdrWriter) (calls : List Call) : Prop :=
  ∀ w, write w = writeAll calls w

/-- A `_read` that returns `a` wherever the pieces of the calls are found. -/
def Reads {α : Type} (read : Decoder α) (a : α) (calls : List Call) : Prop :=
  (∀ c ∈ calls, c.InRange) → ∀ data r r', Found data (calls.flatMap Call.pieces) r r' →
    read.run pyStep ⟨data, r⟩ = .ok (a, ⟨data, r'⟩)

theorem writeAll_append (cs ds : List Call) (w : CdrWriter) :
    writeAll (cs ++ ds) w = writeAll cs w >>= writeAll ds := by
  induction cs generalizing w with
  | nil => rfl
  | cons c cs ih =>
    rw [List.cons_append, writeAll, writeAll]
    cases c.write w with
    | error e => rfl
    | ok w' => exact ih w'

section Rules
variable {α β : Type} {write write' : CdrWriter → Except PyError CdrWriter} {cs ds : List Call}

theorem Writes.call (c : Call) : Writes c.write [c] := by
  intro w
  rw [writeAll]
  cases c.write w <;> rfl

theorem Writes.bind (h : Writes write cs) (h' : Writes write' ds) :
    Writes (fun w => write w >>= write') (cs ++ ds) := by
  intro w
  rw [writeAll_append, ← h w]
  exact congrArg (write w >>= ·) (funext h')

theorem Reads.done (a : α) : Reads (.done a) a [] := by
  rintro - data r r' rfl
  rfl

theorem Reads.bind {p : Decoder α} {k : α → Decoder β} {a : α} {b : β} (h : Reads p a cs)
    (h' : Reads (k a) b ds) : Reads (p.bind k) b (cs ++ ds) := by
  intro hrange data r r' hfound
  rw [List.flatMap_append, found_append] at hfound
  obtain ⟨m, hfirst, hrest⟩ := hfound
  rw [Prog.run_bind_ok _ (h (fun c hc => hrange c (List.mem_append_left _ hc)) data r m hfirst)]
  exact h' (fun c hc => hrange c (List.mem_append_right _ hc)) data m r' hrest

/-- A single call, given what reading it comes to. -/
theorem Reads.of_call {p : Decoder α} {a : α} {c : Call}
    (h : c.InRange → ∀ {data r r'}, p.run pyStep ⟨data, r⟩ = .ok (a, ⟨data, r'⟩) ↔ Found data c.pieces r r') :
    Reads p a [c] := by
  intro hrange data r r' hfound
  rw [List.flatMap_singleton] at hfound
  exact (h (hrange c (List.mem_singleton_self c))).mpr hfound

theorem Reads.boolean (v : Bool) : Reads Decoder.boolean v [.boolean v] := .of_call (fun _ => readBoolean_eq_ok)
theorem Reads.uint8 (n : ℤ) : Reads Decoder.uint8 n [.uint8 n] := .of_call (fun h => readUint8_eq_ok h)
theorem Reads.int32 (n : ℤ) : Reads Decoder.int32 n [.int32 n] := .of_call (fun h => readWord_eq_ok rfl h)
theorem Reads.uint32 (n : ℤ) : Reads Decoder.uint32 n [.uint32 n] := .of_call (fun h => readWord_eq_ok rfl h)
theorem Reads.float64 (v : BitVec 64) : Reads Decoder.float64 v [.float64 v] := .of_call (fun _ => readFloat64_eq_ok)
theorem Reads.string (s : PyStr) : Reads Decoder.string s [.string s] := .of_call (fun h => readString_eq_ok h)
theorem Reads.byteSequence (data : List UInt8) : Reads Decoder.byteSequence data [.byteSequence data] :=
  .of_call (fun h => readBytes_eq_ok h)
theorem Reads.doubleSequence (values : List (BitVec 64)) :
    Reads Decoder.doubleSequence values [.doubleSequence values] := .of_call (fun h => readDoubleSequence_eq_ok h)

theorem Reads.doubles {n : ℕ} {values : List (BitVec 64)} (h : values.length = n) :
    Reads (Decoder.doubles n) values [.doubles values] := by
  subst h
  exact .of_call (fun _ => readDoubles_eq_ok)

end Rules

def Time.calls (m : Time) : List Call := [.int32 m.sec, .uint32 m.nanosec]
def Header.calls (m : Header) : List Call := m.stamp.calls ++ [.string m.frameId]
def Point.calls (m : Point) : List Call := [.float64 m.x, .float64 m.y, .float64 m.z]
def Quaternion.calls (m : Quaternion) : List Call := [.float64 m.x, .float64 m.y, .float64 m.z, .float64 m.w]
def Pose.calls (m : Pose) : List Call := m.position.calls ++ m.orientation.calls
def Transform.calls (m : Transform) : List Call := m.translation.calls ++ m.rotation.calls
def StringMsg.calls (m : StringMsg) : List Call := [.string m.data]
def PoseStamped.calls (m : PoseStamped) : List Call := m.header.calls ++ m.pose.calls
def TransformStamped.calls (m : TransformStamped) : List Call :=
  m.header.calls ++ .string m.childFrameId :: m.transform.calls
def Image.calls (m : Image) : List Call :=
  m.header.calls ++ [.uint32 m.height, .uint32 m.width, .string m.encoding, .uint8 m.isBigendian, .uint32 m.step,
    .byteSequence m.data]
def RegionOfInterest.calls (m : RegionOfInterest) : List Call :=
  [.uint32 m.xOffset, .uint32 m.yOffset, .uint32 m.height, .uint32 m.width, .boolean m.doRectify]
def CameraInfo.calls (m : CameraInfo) : List Call :=
  m.header.calls ++ .uint32 m.height :: .uint32 m.width :: .string m.distortionModel :: .doubleSequence m.d ::
    .doubles m.k :: .doubles m.r :: .doubles m.p :: .uint32 m.binningX :: .uint32 m.binningY :: m.roi.calls

section Writes
open Writes

theorem Time.writes (m : Time) : Writes m.write m.calls := (call (.int32 m.sec)).bind (call (.uint32 m.nanosec))

theorem Header.writes (m : Header) : Writes m.write m.calls := m.stamp.writes.bind (call (.string m.frameId))

theorem Point.writes (m : Point) : Writes m.write m.calls := by
  refine (call (.float64 m.x)).bind ?_
  refine (call (.float64 m.y)).bind ?_
  exact call (.float64 m.z)

theorem Quaternion.writes (m : Quaternion) : Writes m.write m.calls := by
  refine (call (.float64 m.x)).bind ?_
  refine (call (.float64 m.y)).bind ?_
  refine (call (.float64 m.z)).bind ?_
  exact call (.float64 m.w)

theorem Pose.writes (m : Pose) : Writes m.write m.calls := m.position.writes.bind m.orientation.writes

theorem Transform.writes (m : Transform) : Writes m.write m.calls := m.translation.writes.bind m.rotation.writes

theorem StringMsg.writes (m : StringMsg) : Writes m.write m.calls := call (.string m.data)

theorem PoseStamped.writes (m : PoseStamped) : Writes m.write m.calls := m.header.writes.bind m.pose.writes

theorem TransformStamped.writes (m : TransformStamped) : Writes m.write m.calls := by
  refine m.header.writes.bind ?_
  refine (call (.string m.childFrameId)).bind ?_
  exact m.transform.writes

theorem Image.writes (m : Image) : Writes m.write m.calls := by
  refine m.header.writes.bind ?_
  refine (call (.uint32 m.height)).bind ?_
  refine (call (.uint32 m.width)).bind ?_
  refine (call (.string m.encoding)).bind ?_
  refine (call (.uint8 m.isBigendian)).bind ?_
  refine (call (.uint32 m.step)).bind ?_
  exact call (.byteSequence m.data)

theorem RegionOfInterest.writes (m : RegionOfInterest) : Writes m.write m.calls := by
  refine (call (.uint32 m.xOffset)).bind ?_
  refine (call (.uint32 m.yOffset)).bind ?_
  refine (call (.uint32 m.height)).bind ?_
  refine (call (.uint32 m.width)).bind ?_
  exact call (.boolean m.doRectify)

theorem CameraInfo.writes (m : CameraInfo) : Writes m.write m.calls := by
  refine m.header.writes.bind ?_
  refine (call (.uint32 m.height)).bind ?_
  refine (call (.uint32 m.width)).bind ?_
  refine (call (.string m.distortionModel)).bind ?_
  refine (call (.doubleSequence m.d)).bind ?_
  refine (call (.doubles m.k)).bind ?_
  refine (call (.doubles m.r)).bind ?_
  refine (call (.doubles m.p)).bind ?_
  refine (call (.uint32 m.binningX)).bind ?_
  refine (call (.uint32 m.binningY)).bind ?_
  exact m.roi.writes

end Writes

section Reads
open Reads

/-- The last call of a `_read`, with the constructor behind it. -/
theorem Reads.last {α β : Type} {p : Decoder α} {a : α} {cs : List Call} (h : Reads p a cs) (f : α → β) :
    Reads (p.bind (fun x => .done (f x))) (f a) cs := by
  have hall := h.bind (k := fun x => .done (f x)) (done (f a))
  rwa [List.append_nil] at hall

theorem Time.reads (m : Time) : Reads Time.read m m.calls := by
  refine (int32 m.sec).bind ?_
  exact (uint32 m.nanosec).last _

theorem Header.reads (m : Header) : Reads Header.read m m.calls := by
  refine m.stamp.reads.bind ?_
  exact (string m.frameId).last _

theorem Point.reads (m : Point) : Reads Point.read m m.calls := by
  refine (float64 m.x).bind ?_
  refine (float64 m.y).bind ?_
  exact (float64 m.z).last _

theorem Quaternion.reads (m : Quaternion) : Reads Quaternion.read m m.calls := by
  refine (float64 m.x).bind ?_
  refine (float64 m.y).bind ?_
  refine (float64 m.z).bind ?_
  exact (float64 m.w).last _

theorem Pose.reads (m : Pose) : Reads Pose.read m m.calls := by
  refine m.position.reads.bind ?_
  exact m.orientation.reads.last _

theorem Transform.reads (m : Transform) : Reads Transform.read m m.calls := by
  refine m.translation.reads.bind ?_
  exact m.rotation.reads.last _

theorem StringMsg.reads (m : StringMsg) : Reads StringMsg.read m m.calls := (string m.data).last _

theorem PoseStamped.reads (m : PoseStamped) : Reads PoseStamped.read m m.calls := by
  refine m.header.reads.bind ?_
  exact m.pose.reads.last _

theorem TransformStamped.reads (m : TransformStamped) : Reads TransformStamped.read m m.calls := by
  refine m.header.reads.bind ?_
  refine (string m.childFrameId).bind ?_
  exact m.transform.reads.last _

theorem Image.reads (m : Image) : Reads Image.read m m.calls := by
  refine m.header.reads.bind ?_
  refine (uint32 m.height).bind ?_
  refine (uint32 m.width).bind ?_
  refine (string m.encoding).bind ?_
  refine (uint8 m.isBigendian).bind ?_
  refine (uint32 m.step).bind ?_
  exact (byteSequence m.data).last _

theorem RegionOfInterest.reads (m : RegionOfInterest) : Reads RegionOfInterest.read m m.calls := by
  refine (uint32 m.xOffset).bind ?_
  refine (uint32 m.yOffset).bind ?_
  refine (uint32 m.height).bind ?_
  refine (uint32 m.width).bind ?_
  exact (boolean m.doRectify).last _

/-- The three matrices as the reader counts them. -/
def CameraInfo.MatricesSized (m : CameraInfo) : Prop := m.k.length = 9 ∧ m.r.length = 9 ∧ m.p.length = 12

theorem CameraInfo.reads (m : CameraInfo) (h : m.MatricesSized) : Reads CameraInfo.read m m.calls := by
  refine m.header.reads.bind ?_
  refine (uint32 m.height).bind ?_
  refine (uint32 m.width).bind ?_
  refine (string m.distortionModel).bind ?_
  refine (doubleSequence m.d).bind ?_
  refine (doubles h.1).bind ?_
  refine (doubles h.2.1).bind ?_
  refine (doubles h.2.2).bind ?_
  refine (uint32 m.binningX).bind ?_
  refine (uint32 m.binningY).bind ?_
  exact m.roi.reads.last _

end Reads

section Cursors

/-- Writer and reader pad alike in front of everything the call writes. -/
def Call.Even : Call → Prop
  | .doubleSequence values | .doubles values => values ≠ []
  | _ => True

theorem doublesPiece_even {values : List (BitVec 64)} (h : values ≠ []) :
    (doublesPiece values).readerPad = (doublesPiece values).writerPad := by
  funext w
  exact (if_neg h).symm

theorem Call.Even.pieces {c : Call} (h : c.Even) : ∀ p ∈ c.pieces, p.readerPad = p.writerPad := by
  cases c with
  | doubleSequence values =>
    intro p hp
    rcases List.mem_pair.mp hp with rfl | rfl
    · rfl
    · exact doublesPiece_even h
  | doubles values =>
    intro p hp
    rw [List.mem_singleton.mp hp]
    exact doublesPiece_even h
  | float64 value =>
    intro p hp
    rw [List.mem_singleton.mp hp]
    exact doublesPiece_even (List.cons_ne_nil value [])
  | string value =>
    intro p hp
    rcases List.mem_pair.mp hp with rfl | rfl <;> rfl
  | byteSequence value =>
    intro p hp
    rcases List.mem_pair.mp hp with rfl | rfl <;> rfl
  | boolean value | uint8 value | int32 value | uint32 value =>
    intro p hp
    rw [List.mem_singleton.mp hp]
    rfl

theorem flatMap_even {calls : List Call} (h : ∀ c ∈ calls, c.Even) :
    ∀ p ∈ calls.flatMap Call.pieces, p.readerPad = p.writerPad := by
  intro p hp
  obtain ⟨c, hc, hp⟩ := List.mem_flatMap.mp hp
  exact (h c hc).pieces p hp

theorem cursorsMeet_of_even {calls : List Call} (h : ∀ c ∈ calls, c.Even) : CursorsMeet calls :=
  synced_of_even (flatMap_even h) 4

/-- Doubles behind a sequence of doubles bring the cursors together again, even
when the sequence is empty. -/
theorem synced_doubles {d k : List (BitVec 64)} (hk : k ≠ []) {ps : List (Piece UInt8 0)}
    (hps : ∀ p ∈ ps, p.readerPad = p.writerPad) (w : ℕ) :
    Synced (doublesPiece d :: doublesPiece k :: ps) w w := by
  by_cases hd : d = []
  · subst hd
    have hwriter : (doublesPiece k).writerPad = padding 8 := (doublesPiece_even hk).symm
    have hmet : w + padding 8 w + padding 8 (w + padding 8 w) = w + padding 8 w := by
      rw [padding_padding (.inr rfl), Nat.add_zero]
    refine ⟨.inr (by rintro b ⟨⟩), ?_⟩
    change Synced (doublesPiece k :: ps) w (w + padding 8 w)
    refine ⟨.inl ?_, ?_⟩
    · rw [hwriter]
      exact hmet
    · rw [hwriter]
      change Synced ps _ (w + padding 8 w + padding 8 (w + padding 8 w) + (doublesPiece k).items.length)
      rw [hmet]
      exact synced_of_even hps _
  · refine synced_of_even (fun p hp => ?_) w
    rcases List.mem_cons.mp hp with rfl | hp
    · exact doublesPiece_even hd
    rcases List.mem_cons.mp hp with rfl | hp
    · exact doublesPiece_even hk
    · exact hps p hp

theorem cursorsMeet_doubles {before after : List Call} {d k : List (BitVec 64)} (hk : k ≠ [])
    (hbefore : ∀ c ∈ before, c.Even) (hafter : ∀ c ∈ after, c.Even) :
    CursorsMeet (before ++ .doubleSequence d :: .doubles k :: after) := by
  have hsplit : (before ++ .doubleSequence d :: .doubles k :: after).flatMap Call.pieces =
      before.flatMap Call.pieces ++ ([wordPiece .I d.length] ++
        doublesPiece d :: doublesPiece k :: after.flatMap Call.pieces) := by
    simp only [List.flatMap_append, List.flatMap_cons, List.cons_append, List.nil_append, Call.pieces]
  unfold CursorsMeet
  rw [hsplit]
  refine synced_append_of_even (flatMap_even hbefore) (fun w => ?_)
  refine synced_append_of_even (by simp [wordPiece, exactPiece]) (fun w => ?_)
  exact synced_doubles hk (flatMap_even hafter) w

theorem CameraInfo.cursorsMeet (m : CameraInfo) (h : m.MatricesSized) : CursorsMeet m.calls := by
  obtain ⟨hk, hr, hp⟩ := h
  have hne {n : ℕ} {l : List (BitVec 64)} (hl : l.length = n + 1) : l ≠ [] := by
    rintro rfl
    cases hl
  have hcalls : m.calls =
      (m.header.calls ++ ([.uint32 m.height, .uint32 m.width, .string m.distortionModel] : List Call)) ++
        .doubleSequence m.d :: .doubles m.k :: .doubles m.r :: .doubles m.p :: .uint32 m.binningX ::
          .uint32 m.binningY :: m.roi.calls := by
    rw [List.append_assoc]
    rfl
  rw [hcalls]
  apply cursorsMeet_doubles (hne hk)
  · simp [Header.calls, Time.calls, Call.Even]
  · simp [RegionOfInterest.calls, Call.Even, hne hr, hne hp]

end Cursors

/-- An instance of one of the topic-capable classes. -/
inductive ShippedMessage where
  | empty (m : Empty)
  | string (m : StringMsg)
  | poseStamped (m : PoseStamped)
  | transformStamped (m : TransformStamped)
  | image (m : Image)
  | cameraInfo (m : CameraInfo)

namespace ShippedMessage

def serialize : ShippedMessage → Except PyError (List UInt8)
  | .empty m => emptyMessage.serialize m
  | .string m => stringMessage.serialize m
  | .poseStamped m => poseStampedMessage.serialize m
  | .transformStamped m => transformStampedMessage.serialize m
  | .image m => imageMessage.serialize m
  | .cameraInfo m => cameraInfoMessage.serialize m

/-- `type(m).from_cdr(data)`. -/
def fromCdr : ShippedMessage → List UInt8 → Except PyError ShippedMessage
  | .empty _, data => (emptyMessage.fromCdr data).map .empty
  | .string _, data => (stringMessage.fromCdr data).map .string
  | .poseStamped _, data => (poseStampedMessage.fromCdr data).map .poseStamped
  | .transformStamped _, data => (transformStampedMessage.fromCdr data).map .transformStamped
  | .image _, data => (imageMessage.fromCdr data).map .image
  | .cameraInfo _, data => (cameraInfoMessage.fromCdr data).map .cameraInfo

/-- The writer calls made for the fields. -/
def calls : ShippedMessage → List Call
  | .empty _ => []
  | .string m => m.calls
  | .poseStamped m => m.calls
  | .transformStamped m => m.calls
  | .image m => m.calls
  | .cameraInfo m => m.calls

/-- The fixed-size arrays have their size. Only `CameraInfo` has such arrays. -/
def ArraysSized : ShippedMessage → Prop
  | .cameraInfo m => m.MatricesSized
  | _ => True

/-- `serialize` raises, or what it returns reads back, whatever follows it. -/
def RoundTripsOrRefuses (m : ShippedMessage) : Prop :=
  (∃ e, m.serialize = .error e) ∨ ∃ b, m.serialize = .ok b ∧ ∀ t, m.fromCdr (b ++ t) = .ok m

end ShippedMessage

theorem inRange_of_writeAll {calls : List Call} {w w' : CdrWriter} (h : writeAll calls w = .ok w') :
    ∀ c ∈ calls, c.InRange := by
  induction calls generalizing w with
  | nil => simp
  | cons c cs ih =>
    obtain ⟨u, hc, hcs⟩ := Checks.bind_eq_ok.mp h
    intro d hd
    rcases List.mem_cons.mp hd with rfl | hd
    · exact ((d.write_eq_ok w u).mp hc).1
    · exact ih hcs d hd

section Message
variable {M : Type} {schema : Members} {msg : Message M schema} {m : M} {calls : List Call}

theorem Message.serialize_eq_ok (hw : Writes (msg.write m) calls) (h : ∀ c ∈ calls, c.InRange) :
    msg.serialize m = .ok (CdrWriter.new.buf ++ layout (calls.flatMap Call.pieces) 4) := by
  rw [Message.serialize, hw, writeAll_eq_ok calls h]
  rfl

theorem Message.serialize_refuses (hw : Writes (msg.write m) calls) (h : ¬ ∀ c ∈ calls, c.InRange) :
    ∃ e, msg.serialize m = .error e := by
  cases hrun : writeAll calls CdrWriter.new with
  | ok w => exact absurd (inRange_of_writeAll hrun) h
  | error e => exact ⟨e, by rw [Message.serialize, hw, hrun]; rfl⟩

theorem Message.fromCdr_serialize (hw : Writes (msg.write m) calls) (hr : Reads msg.read m calls)
    (hmeet : CursorsMeet calls) : (∃ e, msg.serialize m = .error e) ∨
      ∃ b, msg.serialize m = .ok b ∧ ∀ t, msg.fromCdr (b ++ t) = .ok m := by
  by_cases h : ∀ c ∈ calls, c.InRange
  · refine .inr ⟨_, Message.serialize_eq_ok hw h, fun t => ?_⟩
    have hfound := Synced.found (calls.flatMap Call.pieces) CdrWriter.new.buf t (r := 4) (by decide) hmeet
    have hrun : msg.read.run pyStep ⟨CdrWriter.new.buf ++ (layout (calls.flatMap Call.pieces) 4 ++ t), 4⟩ =
        .ok (m, _) := hr h _ _ _ hfound
    rw [List.append_assoc, Message.fromCdr, new_payload]
    dsimp only
    rw [hrun]
    rfl
  · exact .inl (Message.serialize_refuses hw h)

end Message

section Lengths

theorem length_of_doubles {n : ℕ} {u u' : CdrReader} {values : List (BitVec 64)}
    (h : (Decoder.doubles n).run pyStep u = .ok (values, u')) : values.length = n := by
  obtain ⟨⟨⟩, u₁, -, h⟩ := Prog.run_bind_eq_ok _ h
  obtain ⟨raw, u₂, -, h⟩ := Prog.run_bind_eq_ok _ h
  obtain rfl : unpackDoubles n raw = values := (Prod.mk.inj (Except.ok.inj h)).1
  rw [unpackDoubles, List.length_map, LittleEndian.blocks_length]

/-- Whatever the bytes are, the matrices that are read have their size. -/
theorem CameraInfo.matricesSized_of_read {u u' : CdrReader} {m : CameraInfo}
    (h : CameraInfo.read.run pyStep u = .ok (m, u')) : m.MatricesSized := by
  obtain ⟨header, u₁, -, h⟩ := Prog.run_bind_eq_ok _ h
  obtain ⟨height, u₂, -, h⟩ := Prog.run_bind_eq_ok _ h
  obtain ⟨width, u₃, -, h⟩ := Prog.run_bind_eq_ok _ h
  obtain ⟨model, u₄, -, h⟩ := Prog.run_bind_eq_ok _ h
  obtain ⟨d, u₅, -, h⟩ := Prog.run_bind_eq_ok _ h
  obtain ⟨k, u₆, hk, h⟩ := Prog.run_bind_eq_ok _ h
  obtain ⟨r, u₇, hr, h⟩ := Prog.run_bind_eq_ok _ h
  obtain ⟨p, u₈, hp, h⟩ := Prog.run_bind_eq_ok _ h
  obtain ⟨binningX, u₉, -, h⟩ := Prog.run_bind_eq_ok _ h
  obtain ⟨binningY, u₁₀, -, h⟩ := Prog.run_bind_eq_ok _ h
  obtain ⟨roi, u₁₁, -, h⟩ := Prog.run_bind_eq_ok _ h
  obtain rfl := (Prod.mk.inj (Except.ok.inj h)).1
  exact ⟨length_of_doubles hk, length_of_doubles hr, length_of_doubles hp⟩

theorem CameraInfo.matricesSized_of_fromCdr {data : List UInt8} {m : CameraInfo}
    (h : cameraInfoMessage.fromCdr data = .ok m) : m.MatricesSized := by
  unfold Message.fromCdr at h
  split at h
  · cases hrun : cameraInfoMessage.read.run pyStep _ with
    | error e =>
      rw [hrun] at h
      cases h
    | ok x =>
      rw [hrun] at h
      obtain rfl : x.1 = m := Except.ok.inj h
      exact matricesSized_of_read hrun
  · cases h

end Lengths

namespace ShippedMessage

theorem roundTrips_of_arraysSized (m : ShippedMessage) (h : m.ArraysSized) : m.RoundTripsOrRefuses := by
  have heven {cs : List Call} (h : ∀ c ∈ cs, c.Even) : CursorsMeet cs := cursorsMeet_of_even h
  -- every class is its calls; only the matrices need the hypothesis
  have hlift {M : Type} {schema : Members} {msg : Message M schema} {x : M} (mk : M → ShippedMessage)
      (hx : (∃ e, msg.serialize x = .error e) ∨ ∃ b, msg.serialize x = .ok b ∧ ∀ t, msg.fromCdr (b ++ t) = .ok x) :
      (∃ e, msg.serialize x = .error e) ∨
        ∃ b, msg.serialize x = .ok b ∧ ∀ t, (msg.fromCdr (b ++ t)).map mk = .ok (mk x) := by
    refine hx.imp_right ?_
    rintro ⟨b, hb, hback⟩
    exact ⟨b, hb, fun t => by rw [hback t]; rfl⟩
  cases m with
  | empty m => exact hlift .empty (Message.fromCdr_serialize (fun _ => rfl) (Reads.done m) (heven (by simp)))
  | string m =>
    refine hlift .string (Message.fromCdr_serialize m.writes m.reads (heven ?_))
    simp [StringMsg.calls, Call.Even]
  | poseStamped m =>
    refine hlift .poseStamped (Message.fromCdr_serialize m.writes m.reads (heven ?_))
    simp [PoseStamped.calls, Header.calls, Time.calls, Pose.calls, Point.calls, Quaternion.calls, Call.Even]
  | transformStamped m =>
    refine hlift .transformStamped (Message.fromCdr_serialize m.writes m.reads (heven ?_))
    simp [TransformStamped.calls, Header.calls, Time.calls, Transform.calls, Point.calls, Quaternion.calls, Call.Even]
  | image m =>
    refine hlift .image (Message.fromCdr_serialize m.writes m.reads (heven ?_))
    simp [Image.calls, Header.calls, Time.calls, Call.Even]
  | cameraInfo m =>
    exact hlift .cameraInfo (Message.fromCdr_serialize m.writes (m.reads h) (m.cursorsMeet h))

theorem refuses_of_outOfRange (m : ShippedMessage) (h : ¬ ∀ c ∈ m.calls, c.InRange) : ∃ e, m.serialize = .error e := by
  cases m with
  | empty m => exact absurd (fun c hc => absurd hc List.not_mem_nil) h
  | string m => exact Message.serialize_refuses m.writes h
  | poseStamped m => exact Message.serialize_refuses m.writes h
  | transformStamped m => exact Message.serialize_refuses m.writes h
  | image m => exact Message.serialize_refuses m.writes h
  | cameraInfo m => exact Message.serialize_refuses m.writes h

/-- What reads back had the sizes the reader counts with. -/
theorem arraysSized_of_roundTrips (m : ShippedMessage) (h : m.RoundTripsOrRefuses)
    (hrange : ∀ c ∈ m.calls, c.InRange) : m.ArraysSized := by
  cases m with
  | empty m | string m | poseStamped m | transformStamped m | image m => trivial
  | cameraInfo m =>
    have hok : cameraInfoMessage.serialize m = .ok _ := Message.serialize_eq_ok m.writes hrange
    rcases h with ⟨e, he⟩ | ⟨b, -, hback⟩
    · rw [serialize, hok] at he
      cases he
    · have hread := hback []
      cases hcdr : cameraInfoMessage.fromCdr (b ++ []) with
      | error e =>
        rw [fromCdr, hcdr] at hread
        cases hread
      | ok m' =>
        rw [fromCdr, hcdr] at hread
        obtain rfl : m' = m := by
          cases hread
          rfl
        exact CameraInfo.matricesSized_of_fromCdr hcdr

/-- A message reads back or is refused exactly when its arrays have their sizes
or some field is out of range. -/
theorem python_message_round_trips_iff (m : ShippedMessage) :
    m.RoundTripsOrRefuses ↔ m.ArraysSized ∨ ∃ c ∈ m.calls, ¬ c.InRange := by
  have hout : (∃ c ∈ m.calls, ¬ c.InRange) ↔ ¬ ∀ c ∈ m.calls, c.InRange := by
    simp only [not_forall, exists_prop]
  rw [hout]
  constructor
  · intro h
    by_cases hrange : ∀ c ∈ m.calls, c.InRange
    · exact .inl (arraysSized_of_roundTrips m h hrange)
    · exact .inr hrange
  · rintro (h | h)
    · exact roundTrips_of_arraysSized m h
    · exact .inl (refuses_of_outOfRange m h)

/-- A `CameraInfo()` whose `k` was replaced. -/
def cameraWith (k : List (BitVec 64)) : CameraInfo where
  header := ⟨⟨0, 0⟩, []⟩
  height := 0
  width := 0
  distortionModel := []
  d := []
  k := k
  r := List.replicate 9 0
  p := List.replicate 12 0
  binningX := 0
  binningY := 0
  roi := ⟨0, 0, 0, 0, false⟩

theorem cameraWith_inRange (k : List (BitVec 64)) : ∀ c ∈ (cameraWith k).calls, c.InRange := by
  have hempty : (Call.string []).InRange := ⟨[], rfl, by decide⟩
  have hword : (Call.uint32 0).InRange := ⟨by decide, by decide⟩
  have hint : (Call.int32 0).InRange := ⟨by decide, by decide⟩
  have hnone : (Call.doubleSequence []).InRange := Nat.two_pow_pos 32
  simp only [CameraInfo.calls, Header.calls, Time.calls, RegionOfInterest.calls, cameraWith, List.cons_append,
    List.nil_append, List.forall_mem_cons]
  refine ⟨hint, hword, hempty, hword, hword, hempty, hnone, trivial, trivial, trivial, hword, hword, hword, hword,
    hword, hword, trivial, fun c hc => absurd hc List.not_mem_nil⟩

/-- Three entries for `k` are serialized without complaint and do not read back. -/
theorem short_matrix_not_read_back :
    ¬ (ShippedMessage.cameraInfo (cameraWith [0, 0, 0])).RoundTripsOrRefuses := by
  intro h
  exact absurd (arraysSized_of_roundTrips _ h (cameraWith_inRange _)).1 (by decide)

end ShippedMessage

end Rcllite.Py
