import Rcllite.PyMessages

/-! Both writers leave the same bytes. The two padding formulas agree on every
buffer that has its header, and a field is then followed through both codecs. -/
namespace Rcllite.Py

theorem padding_eq {n pos : ℕ} (hn : 0 < n) (hp : 4 ≤ pos) : padding n pos = Rcllite.padding n (pos - 4) := by
  have hlt := Rcllite.padding_lt n (pos - 4) hn
  have hdvd := Nat.dvd_of_mod_eq_zero (Rcllite.padding_aligned n (pos - 4) hn)
  obtain ⟨q, hq⟩ := hdvd
  -- `-(pos - 4)` is the padding minus a multiple of `n`
  have hneg : -((pos : ℤ) - 4) = (Rcllite.padding n (pos - 4) : ℤ) + n*(-q) := by
    have : ((pos - 4 + Rcllite.padding n (pos - 4) : ℕ) : ℤ) = (n*q : ℕ) := by rw [hq]
    push_cast [Nat.cast_sub hp] at this
    rw [Int.mul_neg]
    omega
  unfold padding
  rw [hneg, Int.add_mul_emod_self_left, Int.emod_eq_of_lt (by omega) (by omega), Int.toNat_natCast]

theorem bind_ok {ε α β : Type} {x : Except ε α} {a : α} (h : x = .ok a) (f : α → Except ε β) :
    x >>= f = f a := by
  rw [h]
  rfl

/-- Python code that appends the bytes a C++ writer appends. -/
def WritesSame (py : CdrWriter → Except PyError CdrWriter) (cpp : Rcllite.CdrWriter → Rcllite.CdrWriter) : Prop :=
  ∀ w : Rcllite.CdrWriter, py ⟨w.buf⟩ = .ok ⟨(cpp w).buf⟩

theorem pad_eq {n : ℕ} (hn : 0 < n) (w : Rcllite.CdrWriter) :
    (⟨w.buf⟩ : CdrWriter).pad n = ⟨(w.alignTo n).buf⟩ := by
  unfold CdrWriter.pad CdrWriter.append
  rw [padding_eq hn w.header_le, Rcllite.CdrWriter.alignTo_buf]
  rfl

theorem toNat_ofInt {w k : ℕ} (hw : 2^w = 256^k) (n : ℤ) :
    (n % (256^k : ℕ)).toNat = (BitVec.ofInt w n).toNat := by
  rw [BitVec.toNat_ofInt, hw]

theorem pack_eq {f : IntFormat} {n : ℤ} {v : f.prim.Val} (h : f.toCpp n = some v) :
    f.pack n = .ok (f.prim.toBytes v) := by
  unfold IntFormat.toCpp at h
  split_ifs at h with hr
  cases h
  unfold IntFormat.pack
  rw [if_pos hr]
  cases f with
  | B => exact congrArg (fun x => Except.ok (LittleEndian.toBytes 1 x)) (toNat_ofInt (w := 8) (k := 1) (by decide) n)
  | i => exact congrArg (fun x => Except.ok (LittleEndian.toBytes 4 x)) (toNat_ofInt (w := 32) (k := 4) (by decide) n)
  | I => exact congrArg (fun x => Except.ok (LittleEndian.toBytes 4 x)) (toNat_ofInt (w := 32) (k := 4) (by decide) n)

namespace WritesSame
variable {py : CdrWriter → Except PyError CdrWriter} {cpp : Rcllite.CdrWriter → Rcllite.CdrWriter}

/-- The scalar part of a member list: the first member, then the rest. -/
theorem member {name : String} {shape : Shape} {t : RosType} {rest : Members}
    {v : (Members.cons name shape t rest).Val} {py' : CdrWriter → Except PyError CdrWriter}
    (h : WritesSame py (emitSerialize t t.serialize shape v.1))
    (h' : WritesSame py' (rest.serialize v.2)) :
    WritesSame (fun w => py w >>= py') ((Members.cons name shape t rest).serialize v) := by
  intro w
  exact (bind_ok (h w) py').trans (h' _)

/-- The last member needs no continuation. -/
theorem last {name : String} {shape : Shape} {t : RosType} {v : (Members.cons name shape t .nil).Val}
    (h : WritesSame py (emitSerialize t t.serialize shape v.1)) :
    WritesSame py ((Members.cons name shape t .nil).serialize v) := h

theorem packed {f : IntFormat} {n : ℤ} {v : f.prim.Val} (h : f.toCpp n = some v) (w : Rcllite.CdrWriter) :
    CdrWriter.packed f n ⟨w.buf⟩ = .ok ⟨(w.writeBytes (f.prim.toBytes v)).buf⟩ := by
  unfold CdrWriter.packed
  rw [pack_eq h]
  rfl

theorem uint8 {n : ℤ} {v : Prim.Val .uint8} (h : toUint8 n = some v) :
    WritesSame (CdrWriter.uint8 n) (Rcllite.CdrWriter.writePrim .uint8 v) := by
  intro w
  have hpad : w.alignTo 1 = w := by
    apply Rcllite.CdrWriter.ext
    rw [Rcllite.CdrWriter.alignTo_buf, padding_one, List.replicate_zero, List.append_nil]
  change CdrWriter.packed .B n ⟨w.buf⟩ = .ok ⟨((w.alignTo 1).writeBytes (Prim.toBytes .uint8 v)).buf⟩
  rw [hpad]
  exact packed h w

theorem int32 {n : ℤ} {v : Prim.Val .int32} (h : toInt32 n = some v) :
    WritesSame (CdrWriter.int32 n) (Rcllite.CdrWriter.writePrim .int32 v) := by
  intro w
  change CdrWriter.packed .i n ((⟨w.buf⟩ : CdrWriter).pad 4) = _
  rw [pad_eq (by decide)]
  exact packed h (w.alignTo 4)

theorem uint32 {n : ℤ} {v : Prim.Val .uint32} (h : toUint32 n = some v) :
    WritesSame (CdrWriter.uint32 n) (Rcllite.CdrWriter.writePrim .uint32 v) := by
  intro w
  change CdrWriter.packed .I n ((⟨w.buf⟩ : CdrWriter).pad 4) = _
  rw [pad_eq (by decide)]
  exact packed h (w.alignTo 4)

/-- A length prefix, when the length fits. -/
theorem length {n : ℕ} (h : n < 2^32) :
    WritesSame (CdrWriter.uint32 n) (Rcllite.CdrWriter.writeUint32 (BitVec.ofNat 32 n)) := by
  apply uint32
  have hr : IntFormat.InRange .I n := ⟨by omega, by omega⟩
  unfold toUint32 IntFormat.toCpp
  rw [if_pos hr]
  exact congrArg some (BitVec.ofInt_natCast 32 n)

theorem boolean (b : Bool) : WritesSame (CdrWriter.boolean b) (Rcllite.CdrWriter.writePrim .bool b) := by
  intro w
  change Except.ok _ = Except.ok (CdrWriter.mk ((w.alignTo 1).writeBytes (Prim.toBytes .bool b)).buf)
  rw [Rcllite.CdrWriter.writeBytes_buf, Rcllite.CdrWriter.alignTo_buf, padding_one, List.replicate_zero,
    List.append_nil]
  cases b <;> rfl

theorem float64 (v : BitVec 64) :
    WritesSame (CdrWriter.float64 v) (Rcllite.CdrWriter.writePrim .float64 v) := by
  intro w
  change Except.ok (((⟨w.buf⟩ : CdrWriter).pad 8).append (packDoubles [v])) = _
  rw [pad_eq (by decide)]
  rfl

theorem string {s : PyStr} {v : List UInt8} (h : toChars s = some v) (hv : StringFits v) :
    WritesSame (CdrWriter.string s) (Rcllite.CdrWriter.writeString v) := by
  intro w
  have henc : encodeUtf8 s = .ok v := by
    unfold toChars at h
    cases hs : encodeUtf8 s with
    | ok v' =>
      rw [hs] at h
      cases h
      rfl
    | error e =>
      rw [hs] at h
      cases h
  have hcast : (v.length : ℤ) + 1 = ((v.length + 1 : ℕ) : ℤ) := by omega
  rw [CdrWriter.string, bind_ok henc, hcast, bind_ok (length hv w), Rcllite.CdrWriter.writeString,
    Rcllite.CdrWriter.writeBytes_buf]
  rfl

/-- The length prefix of a sequence, padded twice in both codecs. -/
theorem seqLength {n : ℕ} (h : n < 2^32) : WritesSame (fun w => (w.pad 4).uint32 n)
    (fun w => (w.alignTo 4).writeUint32 (BitVec.ofNat 32 n)) := by
  intro w
  dsimp only
  rw [pad_eq (by decide)]
  exact length h (w.alignTo 4)

theorem toBytes_byteVal (b : UInt8) : Prim.toBytes .uint8 (byteVal b) = [b] := by
  change [UInt8.ofNat b.toNat] = [b]
  rw [UInt8.ofNat_toNat]

theorem flatMap_toUint8s (data : List UInt8) : (toUint8s data).flatMap (Prim.toBytes .uint8) = data := by
  unfold toUint8s
  induction data with
  | nil => rfl
  | cons b data ih => rw [List.map_cons, List.flatMap_cons, ih, toBytes_byteVal, List.singleton_append]

theorem byteSequence {data : List UInt8} (h : data.length < 2^32)
    (elem : Prim.Val .uint8 → Rcllite.CdrWriter → Rcllite.CdrWriter) :
    WritesSame (CdrWriter.byteSequence data) (emitSerialize (.prim .uint8) elem .seq (toUint8s data)) := by
  intro w
  have hlen : (toUint8s data).length = data.length := List.length_map _
  have hbody : ∀ w : Rcllite.CdrWriter,
      (serializePrimSeq .uint8 (toUint8s data) w).buf = w.buf ++ data := by
    intro w
    unfold serializePrimSeq
    rw [if_neg (by decide)]
    cases data with
    | nil => exact (List.append_nil _).symm
    | cons b data =>
      rw [if_neg (by simp [toUint8s]), Rcllite.CdrWriter.writeAligned_buf, flatMap_toUint8s, Prim.sizeof,
        padding_one]
      rfl
  change CdrWriter.byteSequence data ⟨w.buf⟩ = .ok ⟨(serializePrimSeq .uint8 (toUint8s data)
    ((w.alignTo 4).writeUint32 (BitVec.ofNat 32 (toUint8s data).length))).buf⟩
  rw [hbody, hlen, CdrWriter.byteSequence, bind_ok (seqLength h w)]
  rfl

/-- A nonempty run of doubles; `float64[]` and `float64[N]` write it alike. -/
theorem appendDoubles {values : List (BitVec 64)} (h : values ≠ []) (w : Rcllite.CdrWriter) :
    (⟨w.buf⟩ : CdrWriter).appendDoubles values = ⟨(serializePrimArray .float64 values w).buf⟩ := by
  unfold CdrWriter.appendDoubles
  rw [if_neg h, pad_eq (by decide)]
  rfl

theorem doubleSequence {values : List (BitVec 64)} (h : values.length < 2^32)
    (elem : Prim.Val .float64 → Rcllite.CdrWriter → Rcllite.CdrWriter) :
    WritesSame (CdrWriter.doubleSequence values) (emitSerialize (.prim .float64) elem .seq values) := by
  intro w
  have hbody : ∀ w : Rcllite.CdrWriter, (⟨w.buf⟩ : CdrWriter).appendDoubles values =
      ⟨(serializePrimSeq .float64 values w).buf⟩ := by
    intro w
    cases values with
    | nil => rfl
    | cons v values =>
      rw [appendDoubles (List.cons_ne_nil v values)]
      rfl
  change CdrWriter.doubleSequence values ⟨w.buf⟩ = .ok ⟨(serializePrimSeq .float64 values
    ((w.alignTo 4).writeUint32 (BitVec.ofNat 32 values.length))).buf⟩
  rw [CdrWriter.doubleSequence, bind_ok (seqLength h w), hbody]
  rfl

theorem doubles {n : ℕ} {values : List (BitVec 64)} {v : List.Vector (Prim.Val .float64) n} (hn : 0 < n)
    (h : toDoubles n values = some v) (elem : Prim.Val .float64 → Rcllite.CdrWriter → Rcllite.CdrWriter) :
    WritesSame (CdrWriter.doubles values) (emitSerialize (.prim .float64) elem (.array n) v) := by
  intro w
  unfold toDoubles at h
  split_ifs at h with hlen
  cases h
  have hne : values ≠ [] := List.ne_nil_of_length_pos (hlen ▸ hn)
  change Except.ok ((⟨w.buf⟩ : CdrWriter).appendDoubles values) =
    .ok ⟨(serializePrimArray .float64 values w).buf⟩
  rw [appendDoubles hne]

end WritesSame

/-- Where the value exists, `_write` and the generated `serialize` agree. -/
theorem Time.writes_same {m : Time} {v : Time.schema.Val} (h : m.toCpp = some v) :
    WritesSame m.write (Time.schema.serialize v) := by
  obtain ⟨sec, hsec, h⟩ := Option.bind_eq_some_iff.mp h
  obtain ⟨nanosec, hnanosec, h⟩ := Option.bind_eq_some_iff.mp h
  cases h
  exact .member (.int32 hsec) (.last (.uint32 hnanosec))

theorem Header.writes_same {m : Header} {v : Header.schema.Val} (h : m.toCpp = some v)
    (hf : Header.schema.Fits StringFits v) : WritesSame m.write (Header.schema.serialize v) := by
  obtain ⟨stamp, hstamp, h⟩ := Option.bind_eq_some_iff.mp h
  obtain ⟨frameId, hframe, h⟩ := Option.bind_eq_some_iff.mp h
  cases h
  obtain ⟨-, hfits, -⟩ := hf
  exact .member (Time.writes_same hstamp) (.last (.string hframe hfits))

theorem Point.writes_same (m : Point) : WritesSame m.write (Point.schema.serialize m.toCpp) :=
  .member (.float64 m.x) (.member (.float64 m.y) (.last (.float64 m.z)))

theorem Quaternion.writes_same (m : Quaternion) : WritesSame m.write (Quaternion.schema.serialize m.toCpp) :=
  .member (.float64 m.x) (.member (.float64 m.y) (.member (.float64 m.z) (.last (.float64 m.w))))

theorem Pose.writes_same (m : Pose) : WritesSame m.write (Pose.schema.serialize m.toCpp) :=
  .member m.position.writes_same (.last m.orientation.writes_same)

theorem Transform.writes_same (m : Transform) : WritesSame m.write (Transform.schema.serialize m.toCpp) :=
  .member (Point.writes_same m.translation) (.last m.rotation.writes_same)

theorem StringMsg.writes_same {m : StringMsg} {v : stringSchema.Val} (h : m.toCpp = some v)
    (hf : stringSchema.Fits StringFits v) : WritesSame m.write (stringSchema.serialize v) := by
  obtain ⟨data, hdata, h⟩ := Option.bind_eq_some_iff.mp h
  cases h
  exact .last (.string hdata hf.1)

theorem PoseStamped.writes_same {m : PoseStamped} {v : PoseStamped.schema.Val} (h : m.toCpp = some v)
    (hf : PoseStamped.schema.Fits StringFits v) : WritesSame m.write (PoseStamped.schema.serialize v) := by
  obtain ⟨header, hheader, h⟩ := Option.bind_eq_some_iff.mp h
  cases h
  exact .member (Header.writes_same hheader hf.1) (.last m.pose.writes_same)

theorem TransformStamped.writes_same {m : TransformStamped} {v : TransformStamped.schema.Val}
    (h : m.toCpp = some v) (hf : TransformStamped.schema.Fits StringFits v) :
    WritesSame m.write (TransformStamped.schema.serialize v) := by
  obtain ⟨header, hheader, h⟩ := Option.bind_eq_some_iff.mp h
  obtain ⟨child, hchild, h⟩ := Option.bind_eq_some_iff.mp h
  cases h
  obtain ⟨hfheader, hfchild, -⟩ := hf
  exact .member (Header.writes_same hheader hfheader)
    (.member (.string hchild hfchild) (.last m.transform.writes_same))

theorem Image.writes_same {m : Image} {v : Image.schema.Val} (h : m.toCpp = some v)
    (hf : Image.schema.Fits StringFits v) : WritesSame m.write (Image.schema.serialize v) := by
  obtain ⟨header, hheader, h⟩ := Option.bind_eq_some_iff.mp h
  obtain ⟨height, hheight, h⟩ := Option.bind_eq_some_iff.mp h
  obtain ⟨width, hwidth, h⟩ := Option.bind_eq_some_iff.mp h
  obtain ⟨encoding, hencoding, h⟩ := Option.bind_eq_some_iff.mp h
  obtain ⟨isBigendian, hbig, h⟩ := Option.bind_eq_some_iff.mp h
  obtain ⟨step, hstep, h⟩ := Option.bind_eq_some_iff.mp h
  cases h
  obtain ⟨hfheader, -, -, hfencoding, -, -, ⟨hfdata, -⟩, -⟩ := hf
  have hlen : m.data.length < 2^32 := by
    rw [← List.length_map byteVal]
    exact hfdata
  exact .member (Header.writes_same hheader hfheader) (.member (.uint32 hheight)
    (.member (.uint32 hwidth) (.member (.string hencoding hfencoding) (.member (.uint8 hbig)
    (.member (.uint32 hstep) (.last (.byteSequence hlen _)))))))

theorem RegionOfInterest.writes_same {m : RegionOfInterest} {v : RegionOfInterest.schema.Val}
    (h : m.toCpp = some v) : WritesSame m.write (RegionOfInterest.schema.serialize v) := by
  obtain ⟨xOffset, hx, h⟩ := Option.bind_eq_some_iff.mp h
  obtain ⟨yOffset, hy, h⟩ := Option.bind_eq_some_iff.mp h
  obtain ⟨height, hheight, h⟩ := Option.bind_eq_some_iff.mp h
  obtain ⟨width, hwidth, h⟩ := Option.bind_eq_some_iff.mp h
  cases h
  exact .member (.uint32 hx) (.member (.uint32 hy) (.member (.uint32 hheight)
    (.member (.uint32 hwidth) (.last (.boolean m.doRectify)))))

theorem CameraInfo.writes_same {m : CameraInfo} {v : CameraInfo.schema.Val} (h : m.toCpp = some v)
    (hf : CameraInfo.schema.Fits StringFits v) : WritesSame m.write (CameraInfo.schema.serialize v) := by
  obtain ⟨header, hheader, h⟩ := Option.bind_eq_some_iff.mp h
  obtain ⟨height, hheight, h⟩ := Option.bind_eq_some_iff.mp h
  obtain ⟨width, hwidth, h⟩ := Option.bind_eq_some_iff.mp h
  obtain ⟨model, hmodel, h⟩ := Option.bind_eq_some_iff.mp h
  obtain ⟨k, hk, h⟩ := Option.bind_eq_some_iff.mp h
  obtain ⟨r, hr, h⟩ := Option.bind_eq_some_iff.mp h
  obtain ⟨p, hp, h⟩ := Option.bind_eq_some_iff.mp h
  obtain ⟨binningX, hx, h⟩ := Option.bind_eq_some_iff.mp h
  obtain ⟨binningY, hy, h⟩ := Option.bind_eq_some_iff.mp h
  obtain ⟨roi, hroi, h⟩ := Option.bind_eq_some_iff.mp h
  cases h
  obtain ⟨hfheader, -, -, hfmodel, ⟨hfd, -⟩, -⟩ := hf
  exact .member (Header.writes_same hheader hfheader) (.member (.uint32 hheight)
    (.member (.uint32 hwidth) (.member (.string hmodel hfmodel) (.member (.doubleSequence hfd _)
    (.member (.doubles (by decide) hk _) (.member (.doubles (by decide) hr _)
    (.member (.doubles (by decide) hp _) (.member (.uint32 hx) (.member (.uint32 hy)
    (.last (RegionOfInterest.writes_same hroi)))))))))))

end Rcllite.Py
