import Rcllite.PyReading

/-! The Python and the C++ codec of every shipped message are one wire format. -/
namespace Rcllite.Py
open Interaction

namespace ReadsSame
variable {α γ : Type} {name : String} {shape : Shape} {t : RosType} {rest : Members}

/-- A member list: the first member, then the rest. -/
theorem member {R : α → shape.Val t.Val → Prop} {T : γ → (Members.cons name shape t rest).Val → Prop}
    {py : Decoder α} {k : α → Decoder γ} {old : (Members.cons name shape t rest).Val}
    (h : ReadsSame R py (emitDeserialize t t.deserialize shape old.1))
    (hk : ∀ a v, R a v → ReadsSame (fun m vs => T m (v, vs)) (k a) (rest.deserialize old.2)) :
    ReadsSame T (py.bind k) ((Members.cons name shape t rest).deserialize old) :=
  h.bind (fun a v hR => map_right (hk a v hR))

theorem nil {T : γ → Members.nil.Val → Prop} {m : γ} {old : Members.nil.Val} (h : T m ()) :
    ReadsSame T (.done m) (Members.nil.deserialize old) :=
  done h

/-- A `double_sequence` member and the array of doubles behind it. -/
theorem doublesMember {n : ℕ} (hn : n*8 < 2^62) {name' : String}
    {T : γ → (Members.cons name .seq (.prim .float64) (.cons name' (.array n) (.prim .float64) rest)).Val → Prop}
    {old : (Members.cons name .seq (.prim .float64) (.cons name' (.array n) (.prim .float64) rest)).Val}
    {k : List (BitVec 64) → List (BitVec 64) → Decoder γ}
    (hk : ∀ (d : List (BitVec 64)) l v, toDoubles n l = some v →
      ReadsSame (fun m vs => T m (d, v, vs)) (k d l) (rest.deserialize old.2.2)) :
    ReadsSame T (Decoder.doubleSequence.bind (fun d => (Decoder.doubles n).bind (k d)))
      ((Members.cons name .seq (.prim .float64) (.cons name' (.array n) (.prim .float64) rest)).deserialize old) := by
  have hpy : Decoder.doubleSequence.bind (fun d => (Decoder.doubles n).bind (k d)) =
      (Decoder.pad 4).bind (fun _ => Decoder.uint32.bind (fun c =>
        (tailThenDoubles c.toNat n).bind (fun dk => k dk.1 dk.2))) := by
    simp only [Decoder.doubleSequence, tailThenDoubles, Prog.bind_eq, Prog.bind_assoc, Prog.done_bind]
  have hcpp : (Members.cons name .seq (.prim .float64)
        (.cons name' (.array n) (.prim .float64) rest)).deserialize old =
      (Rcllite.Decoder.alignTo 4).bind (fun _ => Rcllite.Decoder.readUint32.bind (fun c =>
        (Rcllite.Decoder.guardRemaining c.toNat).bind (fun _ => (Py.seqThenArray c.toNat n).bind (fun dv =>
          (rest.deserialize old.2.2).bind (fun vs => .done (dv.1, dv.2, vs)))))) := by
    change ((Rcllite.Decoder.alignTo 4).bind (fun _ => Rcllite.Decoder.readUint32.bind (fun c =>
        (Rcllite.Decoder.guardRemaining c.toNat).bind (fun _ => deserializePrimSeq .float64 c.toNat)))).bind
        (fun d => ((deserializePrimArray .float64 n).bind (fun v => (rest.deserialize old.2.2).bind
          (fun vs => .done (v, vs)))).bind (fun vs => .done (d, vs))) = _
    simp only [Py.seqThenArray, Prog.bind_assoc, Prog.done_bind]
  rw [hpy, hcpp]
  refine seqLength (k := fun c => (tailThenDoubles c n).bind (fun dk => k dk.1 dk.2)) (fun c => ?_)
  refine guard ((seqThenArray c.isLt hn).bind ?_) ?_
  · rintro ⟨d, l⟩ ⟨d', v⟩ ⟨rfl, hl⟩
    exact map_right (hk d l v hl)
  · intro r _ hshort
    obtain ⟨e, hrun, he⟩ := tailThenDoubles_short r hshort
    exact ⟨e, Prog.run_bind_error _ hrun _, he⟩

end ReadsSame

/-- Each `_read` finds what the generated `deserialize` finds. -/
theorem Time.reads_same (old : Time.schema.Val) :
    ReadsSame (fun m v => m.toCpp = some v) Time.read (Time.schema.deserialize old) := by
  refine .member .int32 (fun sec v hsec => ?_)
  refine .member .uint32 (fun nanosec u hnanosec => ?_)
  apply ReadsSame.nil
  simp only [Time.toCpp, hsec, hnanosec]
  rfl

theorem Header.reads_same (old : Header.schema.Val) :
    ReadsSame (fun m v => m.toCpp = some v) Header.read (Header.schema.deserialize old) := by
  refine .member (Time.reads_same old.1) (fun stamp v hstamp => ?_)
  refine .member .string (fun frameId u hframe => ?_)
  apply ReadsSame.nil
  simp only [Header.toCpp, hstamp, hframe]
  rfl

theorem Point.reads_same (old : Point.schema.Val) :
    ReadsSame (fun m v => m.toCpp = v) Point.read (Point.schema.deserialize old) := by
  refine .member .float64 (fun x _ hx => ?_)
  refine .member .float64 (fun y _ hy => ?_)
  refine .member .float64 (fun z _ hz => ?_)
  apply ReadsSame.nil
  rw [← hx, ← hy, ← hz]
  rfl

theorem Quaternion.reads_same (old : Quaternion.schema.Val) :
    ReadsSame (fun m v => m.toCpp = v) Quaternion.read (Quaternion.schema.deserialize old) := by
  refine .member .float64 (fun x _ hx => ?_)
  refine .member .float64 (fun y _ hy => ?_)
  refine .member .float64 (fun z _ hz => ?_)
  refine .member .float64 (fun w _ hw => ?_)
  apply ReadsSame.nil
  rw [← hx, ← hy, ← hz, ← hw]
  rfl

theorem Pose.reads_same (old : Pose.schema.Val) :
    ReadsSame (fun m v => m.toCpp = v) Pose.read (Pose.schema.deserialize old) := by
  refine .member (Point.reads_same old.1) (fun position v hposition => ?_)
  refine .member (Quaternion.reads_same old.2.1) (fun orientation u horientation => ?_)
  apply ReadsSame.nil
  rw [← hposition, ← horientation]
  rfl

theorem Transform.reads_same (old : Transform.schema.Val) :
    ReadsSame (fun m v => m.toCpp = v) Transform.read (Transform.schema.deserialize old) := by
  refine .member (Point.reads_same old.1) (fun translation v htranslation => ?_)
  refine .member (Quaternion.reads_same old.2.1) (fun rotation u hrotation => ?_)
  apply ReadsSame.nil
  rw [← htranslation, ← hrotation]
  rfl

theorem StringMsg.reads_same (old : stringSchema.Val) :
    ReadsSame (fun m v => m.toCpp = some v) StringMsg.read (stringSchema.deserialize old) := by
  refine .member .string (fun data v hdata => ?_)
  apply ReadsSame.nil
  simp only [StringMsg.toCpp, hdata]
  rfl

theorem PoseStamped.reads_same (old : PoseStamped.schema.Val) :
    ReadsSame (fun m v => m.toCpp = some v) PoseStamped.read (PoseStamped.schema.deserialize old) := by
  refine .member (Header.reads_same old.1) (fun header v hheader => ?_)
  refine .member (Pose.reads_same old.2.1) (fun pose u hpose => ?_)
  apply ReadsSame.nil
  simp only [PoseStamped.toCpp, hheader, hpose]
  rfl

theorem TransformStamped.reads_same (old : TransformStamped.schema.Val) :
    ReadsSame (fun m v => m.toCpp = some v) TransformStamped.read (TransformStamped.schema.deserialize old) := by
  refine .member (Header.reads_same old.1) (fun header v hheader => ?_)
  refine .member .string (fun child u hchild => ?_)
  refine .member (Transform.reads_same old.2.2.1) (fun transform x htransform => ?_)
  apply ReadsSame.nil
  simp only [TransformStamped.toCpp, hheader, hchild, htransform]
  rfl

theorem Image.reads_same (old : Image.schema.Val) :
    ReadsSame (fun m v => m.toCpp = some v) Image.read (Image.schema.deserialize old) := by
  refine .member (Header.reads_same old.1) (fun header _ hheader => ?_)
  refine .member .uint32 (fun height _ hheight => ?_)
  refine .member .uint32 (fun width _ hwidth => ?_)
  refine .member .string (fun encoding _ hencoding => ?_)
  refine .member .uint8 (fun isBigendian _ hbig => ?_)
  refine .member .uint32 (fun step _ hstep => ?_)
  refine .member (.byteSequence _ _) (fun data _ hdata => ?_)
  apply ReadsSame.nil
  simp only [Image.toCpp, hheader, hheight, hwidth, hencoding, hbig, hstep, hdata]
  rfl

theorem RegionOfInterest.reads_same (old : RegionOfInterest.schema.Val) :
    ReadsSame (fun m v => m.toCpp = some v) RegionOfInterest.read (RegionOfInterest.schema.deserialize old) := by
  refine .member .uint32 (fun xOffset _ hx => ?_)
  refine .member .uint32 (fun yOffset _ hy => ?_)
  refine .member .uint32 (fun height _ hheight => ?_)
  refine .member .uint32 (fun width _ hwidth => ?_)
  refine .member .boolean (fun doRectify _ hrectify => ?_)
  apply ReadsSame.nil
  simp only [RegionOfInterest.toCpp, hx, hy, hheight, hwidth, hrectify]
  rfl

theorem CameraInfo.reads_same (old : CameraInfo.schema.Val) :
    ReadsSame (fun m v => m.toCpp = some v) CameraInfo.read (CameraInfo.schema.deserialize old) := by
  refine .member (Header.reads_same old.1) (fun header _ hheader => ?_)
  refine .member .uint32 (fun height _ hheight => ?_)
  refine .member .uint32 (fun width _ hwidth => ?_)
  refine .member .string (fun model _ hmodel => ?_)
  refine .doublesMember (by decide) (fun d k _ hk => ?_)
  refine .member (.doubles (by decide)) (fun r _ hr => ?_)
  refine .member (.doubles (by decide)) (fun p _ hp => ?_)
  refine .member .uint32 (fun binningX _ hx => ?_)
  refine .member .uint32 (fun binningY _ hy => ?_)
  refine .member (RegionOfInterest.reads_same _) (fun roi _ hroi => ?_)
  apply ReadsSame.nil
  simp only [CameraInfo.toCpp, hheader, hheight, hwidth, hmodel, hk, hr, hp, hx, hy, hroi]
  rfl

/-- `serialize` writes what the generated `serialize` writes, whenever the
lengths fit their 32-bit prefixes; and on every buffer whose strings are UTF-8 as
far as decoding gets, `from_cdr` returns the fields that the generated
`deserialize` accepts, or raises a `ValueError` where it does not accept. -/
def SameWireFormat {M : Type} {schema : Members} (msg : Message M schema) : Prop :=
  (∀ m v, msg.toCpp m = some v → schema.Fits StringFits v → msg.serialize m = .ok (schema.encode v)) ∧
  ∀ old b, b.length < 2^63 →
    (∀ r, Rcllite.CdrReader.new b = .ok r → StringsValid (schema.deserialize old) r) →
    match schema.decodeInto true old b with
    | .ok (v, _) => ∃ m, msg.fromCdr b = .ok m ∧ msg.toCpp m = some v
    | .error _ => ∃ e, msg.fromCdr b = .error e ∧ e.IsValueError

/-- Both constructors look for the same header. -/
theorem new_same (b : List UInt8) :
    (∃ r, Rcllite.CdrReader.new b = .ok r ∧ r.Inside ∧ r.buf = b ∧ CdrReader.new b = .ok ⟨r.buf, r.pos⟩) ∨
    (∃ f e, Rcllite.CdrReader.new b = .error f ∧ CdrReader.new b = .error e ∧ e.IsValueError) := by
  cases h : Rcllite.CdrReader.new b with
  | ok r =>
    left
    obtain ⟨hin, rfl⟩ := new_inside h
    obtain ⟨b2, b3, rest, rfl, -⟩ := (new_ok_iff b _).mp h
    refine ⟨_, rfl, hin, rfl, ?_⟩
    unfold CdrReader.new
    rw [if_neg (by simp)]
  | error f =>
    right
    refine ⟨f, .valueError "not a CDR-LE buffer (expected 00 01 encapsulation header)", rfl, ?_, trivial⟩
    unfold CdrReader.new
    rw [if_pos]
    by_contra hgood
    simp only [not_or, not_not, not_lt] at hgood
    obtain ⟨hlen, h0, h1⟩ := hgood
    -- four bytes that start with `00 01` are accepted
    match b, hlen, h0, h1 with
    | b0 :: b1 :: b2 :: b3 :: rest, _, h0, h1 =>
      cases h0
      cases h1
      rw [(new_ok_iff _ ⟨_, 4⟩).mpr ⟨b2, b3, rest, rfl, rfl⟩] at h
      cases h

theorem sameWireFormat_of {M : Type} {schema : Members} {msg : Message M schema}
    (hwrite : ∀ m v, msg.toCpp m = some v → schema.Fits StringFits v →
      WritesSame (msg.write m) (schema.serialize v))
    (hread : ∀ old, ReadsSame (fun m v => msg.toCpp m = some v) msg.read (schema.deserialize old)) :
    SameWireFormat msg := by
  refine ⟨?_, ?_⟩
  · intro m v hv hfits
    have hnew : msg.write m CdrWriter.new = .ok ⟨(schema.serialize v Rcllite.CdrWriter.new).buf⟩ :=
      hwrite m v hv hfits Rcllite.CdrWriter.new
    rw [Message.serialize, hnew]
    rfl
  · intro old b hlen hvalid
    unfold Members.decodeInto Message.fromCdr
    rcases new_same b with ⟨r, hcpp, hin, rfl, hpy⟩ | ⟨f, e, hcpp, hpy, he⟩
    · have hagree := hread old r hin hlen (hvalid r hcpp)
      rw [hcpp, hpy]
      dsimp only
      cases hrun : (schema.deserialize old).run (readStep true) r with
      | ok vr =>
        rw [hrun] at hagree
        obtain ⟨m, hpyrun, hR, -, -⟩ := hagree.of_ok
        rw [hpyrun]
        exact ⟨m, rfl, hR⟩
      | error f =>
        rw [hrun] at hagree
        obtain ⟨e, hpyrun, he⟩ := hagree.of_error
        rw [hpyrun]
        exact ⟨e, rfl, he⟩
    · rw [hcpp, hpy]
      exact ⟨e, rfl, he⟩

/-- Every shipped message. -/
theorem python_and_cpp_same_wire_format :
    SameWireFormat emptyMessage ∧ SameWireFormat stringMessage ∧ SameWireFormat poseStampedMessage ∧
      SameWireFormat transformStampedMessage ∧ SameWireFormat imageMessage ∧
      SameWireFormat cameraInfoMessage := by
  refine ⟨?_, ?_, ?_, ?_, ?_, ?_⟩
  · exact sameWireFormat_of (fun _ _ _ _ _ => rfl) (fun _ => .nil rfl)
  · exact sameWireFormat_of (fun _ _ h hf => StringMsg.writes_same h hf) StringMsg.reads_same
  · exact sameWireFormat_of (fun _ _ h hf => PoseStamped.writes_same h hf) PoseStamped.reads_same
  · exact sameWireFormat_of (fun _ _ h hf => TransformStamped.writes_same h hf) TransformStamped.reads_same
  · exact sameWireFormat_of (fun _ _ h hf => Image.writes_same h hf) Image.reads_same
  · exact sameWireFormat_of (fun _ _ h hf => CameraInfo.writes_same h hf) CameraInfo.reads_same

/-- A string whose length with the NUL needs a 33rd bit is refused. -/
theorem string_too_long {s : PyStr} {raw : List UInt8} (h : encodeUtf8 s = .ok raw)
    (hlen : 2^32 ≤ raw.length + 1) (w : CdrWriter) : w.string s = .error .structError := by
  have hout : ¬ IntFormat.InRange .I ((raw.length : ℤ) + 1) := by
    rintro ⟨-, hlt⟩
    have : (raw.length : ℤ) + 1 < 4294967296 := hlt
    omega
  have hpack : w.uint32 ((raw.length : ℤ) + 1) = .error .structError := by
    unfold CdrWriter.uint32 CdrWriter.packed IntFormat.pack
    rw [if_neg hout]
    rfl
  rw [CdrWriter.string, bind_ok h, hpack]
  rfl

/-- A `std_msgs/String` of `n` times the letter a. -/
def letters (n : ℕ) : StringMsg := ⟨(List.replicate n 'a').map CodePoint.ofChar⟩

theorem encodeUtf8_letters (n : ℕ) : ∃ raw, encodeUtf8 (letters n).data = .ok raw ∧ raw.length = n := by
  refine ⟨(List.replicate n 'a').flatMap String.utf8EncodeChar, ?_, ?_⟩
  · unfold encodeUtf8 letters
    rw [mapM_toChar?]
  · rw [List.length_flatMap, List.map_replicate, List.sum_replicate_nat]
    exact Nat.mul_one n

theorem letters_refused {n : ℕ} (hn : 2^32 ≤ n + 1) : ∃ v, stringMessage.toCpp (letters n) = some v ∧
    stringMessage.serialize (letters n) = .error .structError := by
  obtain ⟨raw, hraw, hlen⟩ := encodeUtf8_letters n
  refine ⟨(raw, ()), ?_, ?_⟩
  · change (toChars (letters n).data).bind (fun data => some (data, ())) = _
    rw [toChars, hraw]
    rfl
  · have hstring := string_too_long hraw (hlen ▸ hn) CdrWriter.new
    change (CdrWriter.new.string (letters n).data).map CdrWriter.payload = _
    rw [hstring]
    rfl

/-- Python refuses a string of `2^32 - 1` letters that C++ serializes. -/
theorem uint32_max_string_refused :
    ∃ m v, stringMessage.toCpp m = some v ∧ stringMessage.serialize m ≠ .ok (stringSchema.encode v) := by
  obtain ⟨v, hv, hrefused⟩ := letters_refused (by norm_num : 2^32 ≤ 4294967295 + 1)
  refine ⟨letters 4294967295, v, hv, ?_⟩
  rw [hrefused]
  nofun

end Rcllite.Py
