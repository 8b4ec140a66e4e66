import Rcllite.PyRoundTrip
import Rcllite.PyWireFormat

/-! What the two decoders of a shipped message make of one and the same byte string, with no assumption on
its strings: Python accepts what C++ accepts with strings that are UTF-8, and raises a `ValueError` on
everything else. -/
namespace Rcllite
open Interaction

mutual

def RosType.hasStrings : RosType → Bool
  | .prim _ => false
  | .string => true
  | .nested _ _ ms => ms.hasStrings

def Members.hasStrings : Members → Bool
  | .nil => false
  | .cons _ _ t rest => t.hasStrings || rest.hasStrings

end

/-- Not `readChars`. -/
def ReadOp.NotChars (o : ReadOp) : Prop := ∀ len, o ≠ .readChars len

namespace Decoder

/-- A decoder that reads no string. -/
abbrev Stringless {α : Type} (p : Decoder α) : Prop := p.Uses ReadOp.NotChars (fun _ => True)

theorem alignTo_stringless (n : ℕ) : (alignTo n).Stringless := Prog.uses_op (S := readSig) (fun _ h => by cases h)

theorem readBytes_stringless (count elem : ℕ) : (readBytes count elem).Stringless :=
  Prog.uses_op (S := readSig) (fun _ h => by cases h)

theorem guardRemaining_stringless (n : ℕ) : (guardRemaining n).Stringless :=
  Prog.uses_op (S := readSig) (fun _ h => by cases h)

theorem readPrim_stringless (p : Prim) : (readPrim p).Stringless := by
  rw [readPrim_eq_readAligned]
  refine Prog.uses_bind (alignTo_stringless _) (fun _ => ?_)
  exact Prog.uses_bind (readBytes_stringless _ _) (fun _ => trivial)

theorem readUint32_stringless : readUint32.Stringless := readPrim_stringless .uint32

theorem primSeq_stringless (p : Prim) (n : ℕ) : (deserializePrimSeq p n).Stringless := by
  unfold deserializePrimSeq
  split_ifs
  · exact Prog.uses_times (readPrim_stringless p) n
  · refine Prog.uses_bind (alignTo_stringless _) (fun _ => ?_)
    exact Prog.uses_bind (readBytes_stringless _ _) (fun _ => trivial)
  · trivial

theorem primArray_stringless (p : Prim) (n : ℕ) : (deserializePrimArray p n).Stringless := by
  refine Prog.uses_bind (alignTo_stringless _) (fun _ => ?_)
  exact Prog.uses_bind (readBytes_stringless _ _) (fun _ => trivial)

variable {t : RosType} {des : t.Val → Decoder t.Val}

theorem seqBody_stringless (hdes : ∀ old, (des old).Stringless) (fresh : t.Val) (n : ℕ) :
    (deserializeSeqBody t des fresh n).Stringless := by
  cases t with
  | prim p => exact primSeq_stringless p n
  | string => exact Prog.uses_times (hdes fresh) n
  | nested package name ms => exact Prog.uses_times (hdes fresh) n

theorem emit_stringless (hdes : ∀ old, (des old).Stringless) (shape : Shape) (old : shape.Val t.Val) :
    (emitDeserialize t des shape old).Stringless := by
  cases shape with
  | scalar => exact hdes old
  | seq =>
    refine Prog.uses_bind (alignTo_stringless _) (fun _ => ?_)
    refine Prog.uses_bind readUint32_stringless (fun n => ?_)
    exact Prog.uses_bind (guardRemaining_stringless _) (fun _ => seqBody_stringless hdes t.zero _)
  | array n =>
    cases t with
    | prim p => exact primArray_stringless p n
    | string => exact Prog.uses_forVec hdes old
    | nested package name ms => exact Prog.uses_forVec hdes old

end Decoder

mutual

theorem RosType.deserialize_stringless (t : RosType) (h : t.hasStrings = false) (old : t.Val) :
    (t.deserialize old).Stringless := by
  cases t with
  | prim p => exact Decoder.readPrim_stringless p
  | string => cases h
  | nested package name ms => exact Members.deserialize_stringless ms h old

theorem Members.deserialize_stringless (ms : Members) (h : ms.hasStrings = false) (old : ms.Val) :
    (ms.deserialize old).Stringless := by
  cases ms with
  | nil => trivial
  | cons name shape t rest =>
    obtain ⟨ht, hrest⟩ := Bool.or_eq_false_iff.mp h
    refine Prog.uses_bind (Decoder.emit_stringless (fun o => RosType.deserialize_stringless t ht o) shape old.1) ?_
    exact fun _ => Prog.uses_bind (Members.deserialize_stringless rest hrest old.2) (fun _ => trivial)

end

end Rcllite

namespace Rcllite.Py
open Interaction

/-- `Agree`, or Python stops at a value that no Python message stands for. -/
inductive Alike {α β : Type} (R : α → β → Prop) :
    Except PyError (α × CdrReader) → Except Failure (β × Rcllite.CdrReader) → Prop
  | same {x : Except PyError (α × CdrReader)} {y : Except Failure (β × Rcllite.CdrReader)} (h : Agree R x y) :
      Alike R x y
  | refused {e : PyError} {b : β} {r : Rcllite.CdrReader} (he : e.IsValueError) (hb : ∀ a, ¬ R a b) :
      Alike R (.error e) (.ok (b, r))

def ReadsAlike {α β : Type} (R : α → β → Prop) (py : Decoder α) (cpp : Rcllite.Decoder β) : Prop :=
  ∀ r : Rcllite.CdrReader, r.Inside → r.buf.length < 2^63 →
    Alike R (py.run pyStep ⟨r.buf, r.pos⟩) (cpp.run (readStep true) r)

theorem StringsValid.of_stringless {β : Type} {cpp : Rcllite.Decoder β} (h : cpp.Stringless)
    (r : Rcllite.CdrReader) : StringsValid cpp r := by
  intro len r₁ raw r₂ hmem
  exact absurd rfl (Prog.calls_uses (readStep true) h r _ hmem len)

theorem StringsValid.of_chars {len : ℕ} {r : Rcllite.CdrReader}
    (h : ∀ raw r', r.readChars len = .ok (raw, r') → ValidUtf8 raw) :
    StringsValid (Rcllite.Decoder.readChars len) r := by
  intro len' r₁ raw r₂ hmem hok
  have hcalls : (Rcllite.Decoder.readChars len).calls (readStep true) r = [(ReadOp.readChars len, r)] :=
    Prog.calls_op _ _ _
  rw [hcalls] at hmem
  cases List.eq_of_mem_singleton hmem
  exact h raw r₂ hok

theorem ReadsSame.alike {α β : Type} {R : α → β → Prop} {py : Decoder α} {cpp : Rcllite.Decoder β}
    (h : ReadsSame R py cpp) (hcpp : cpp.Stringless) : ReadsAlike R py cpp :=
  fun r hin hlen => .same (h r hin hlen (.of_stringless hcpp r))

namespace ReadsAlike
variable {α β γ δ : Type} {R : α → β → Prop} {S : γ → δ → Prop}

theorem bind {py : Decoder α} {cpp : Rcllite.Decoder β} (h : ReadsAlike R py cpp) {k : α → Decoder γ}
    {l : β → Rcllite.Decoder δ} (hk : ∀ a b, R a b → ReadsAlike S (k a) (l b))
    (hback : ∀ b r d r', (l b).run (readStep true) r = .ok (d, r') → ∀ c, S c d → ∃ a, R a b) :
    ReadsAlike S (py.bind k) (cpp.bind l) := by
  intro r hin hlen
  have hfirst := h r hin hlen
  generalize hx : py.run pyStep ⟨r.buf, r.pos⟩ = x at hfirst
  generalize hy : cpp.run (readStep true) r = y at hfirst
  cases hfirst with
  | same hagree =>
    cases hagree with
    | ok hR hin' hlen' =>
      rw [Prog.run_bind_ok _ hx, Prog.run_bind_ok _ hy]
      exact hk _ _ hR _ hin' hlen'
    | error he =>
      rw [Prog.run_bind_error _ hx, Prog.run_bind_error _ hy]
      exact .same (.error he)
  | @refused e b r' he hb =>
    -- C++ goes on alone, and what it may return has the unwanted value in it
    rw [Prog.run_bind_error _ hx, Prog.run_bind_ok _ hy]
    cases hl : (l b).run (readStep true) r' with
    | error f => exact .same (.error he)
    | ok dr =>
      refine .refused he (fun c hS => ?_)
      obtain ⟨a, hR⟩ := hback b r' dr.1 dr.2 hl c hS
      exact hb a hR

/-- The C++ program may go on to rearrange its result. -/
theorem map_right {py : Decoder α} {cpp : Rcllite.Decoder β} {f : β → δ} {T : α → δ → Prop}
    (h : ReadsAlike (fun a b => T a (f b)) py cpp) : ReadsAlike T py (cpp.bind (fun b => .done (f b))) := by
  intro r hin hlen
  have hboth := h r hin hlen
  generalize py.run pyStep ⟨r.buf, r.pos⟩ = x at hboth ⊢
  generalize hy : cpp.run (readStep true) r = y at hboth
  cases hboth with
  | same hagree =>
    cases hagree with
    | ok hT hin' hlen' =>
      rw [Prog.run_bind_ok _ hy]
      exact .same (.ok hT hin' hlen')
    | error he =>
      rw [Prog.run_bind_error _ hy]
      exact .same (.error he)
  | refused he hb =>
    rw [Prog.run_bind_ok _ hy]
    exact .refused he hb

/-- A member list: a Python message with the rest of the fields has the first one too. -/
theorem member {name : String} {shape : Shape} {t : RosType} {rest : Members} {R : α → shape.Val t.Val → Prop}
    {T : γ → (Members.cons name shape t rest).Val → Prop} {py : Decoder α} {k : α → Decoder γ}
    {old : (Members.cons name shape t rest).Val} (h : ReadsAlike R py (emitDeserialize t t.deserialize shape old.1))
    (hk : ∀ a v, R a v → ReadsAlike (fun m vs => T m (v, vs)) (k a) (rest.deserialize old.2))
    (hback : ∀ m v vs, T m (v, vs) → ∃ a, R a v) :
    ReadsAlike T (py.bind k) ((Members.cons name shape t rest).deserialize old) := by
  refine h.bind (fun a v hR => map_right (hk a v hR)) ?_
  intro v r d r' hrun c hT
  obtain ⟨vs, u, -, hdone⟩ := Prog.run_bind_eq_ok _ hrun
  obtain rfl : (v, vs) = d := (Prod.mk.inj (Except.ok.inj hdone)).1
  exact hback c v vs hT

theorem toChars_valid {s : PyStr} {raw : List UInt8} (h : toChars s = some raw) : decodeUtf8 raw = .ok s := by
  unfold toChars at h
  cases henc : encodeUtf8 s with
  | error e =>
    rw [henc] at h
    cases h
  | ok raw' =>
    rw [henc] at h
    obtain rfl : raw' = raw := Option.some.inj h
    exact decodeUtf8_eq_iff.mpr henc

theorem validUtf8_of_decode {raw : List UInt8} {s : PyStr} (h : decodeUtf8 raw = .ok s) : ValidUtf8 raw := by
  unfold decodeUtf8 at h
  split at h
  · rename_i cs hcs
    have hsome : raw.toByteArray.utf8Decode?.isSome := by
      rw [hcs]
      rfl
    exact ⟨_, (ByteArray.utf8Encode_get_utf8Decode? (h := hsome)).symm⟩
  · cases h

theorem toUint32_toNat (v : BitVec 32) : toUint32 (v.toNat : ℤ) = some v := by
  have hr : IntFormat.InRange .I (v.toNat : ℤ) := ⟨Int.natCast_nonneg _, by
    have := v.isLt
    change (v.toNat : ℤ) < 4294967296
    omega⟩
  rw [toUint32, IntFormat.toCpp, if_pos hr]
  change some (BitVec.ofInt 32 (v.toNat : ℤ)) = some v
  rw [BitVec.ofInt_natCast, BitVec.ofNat_toNat, BitVec.setWidth_eq]

theorem decodeUtf8_cases (raw : List UInt8) :
    (∃ s, decodeUtf8 raw = .ok s ∧ toChars s = some raw) ∨
      decodeUtf8 raw = .error .unicodeDecodeError ∧ ∀ s, toChars s ≠ some raw := by
  cases h : decodeUtf8 raw with
  | ok s =>
    refine .inl ⟨s, rfl, ?_⟩
    rw [toChars, decodeUtf8_eq_iff.mp h]
    rfl
  | error e =>
    have herror : e = .unicodeDecodeError := by
      unfold decodeUtf8 at h
      split at h
      · cases h
      · exact (Except.error.inj h).symm
    refine .inr ⟨by rw [herror], fun s hs => ?_⟩
    rw [toChars_valid hs] at h
    cases h

/-- The one place where the two part. -/
theorem chars {len : ℕ} (hlen : len < 2^32) :
    ReadsAlike (fun s v => toChars s = some v) (Decoder.chars len) (Rcllite.Decoder.readChars len) := by
  intro r hin hbuf
  have hread := hin.readChars_eq hbuf hlen
  rcases decodeUtf8_cases ((r.buf.drop r.pos).take (len - 1)) with ⟨s, hdec, henc⟩ | ⟨hdec, hno⟩
  · refine .same (ReadsSame.chars hlen r hin hbuf (.of_chars (fun raw r₂ hok => ?_)))
    rw [hread] at hok
    split_ifs at hok with hbad
    obtain rfl : (r.buf.drop r.pos).take (len - 1) = raw := (Prod.mk.inj (Except.ok.inj hok)).1
    exact validUtf8_of_decode hdec
  · by_cases hbad : len = 0 ∨ r.pos + len > r.buf.length
    · refine .same (ReadsSame.chars hlen r hin hbuf (.of_chars (fun raw r₂ hok => ?_)))
      rw [hread, if_pos hbad] at hok
      cases hok
    · obtain ⟨h0, hend⟩ := not_or.mp hbad
      have htake : (Decoder.take len).run pyStep ⟨r.buf, r.pos⟩ =
          .ok ((r.buf.drop r.pos).take len, ⟨r.buf, r.pos + len⟩) := by
        rw [Decoder.run_take, CdrReader.take, if_neg hend]
      have hlast : ((r.buf.drop r.pos).take len).dropLast = (r.buf.drop r.pos).take (len - 1) := by
        rw [List.dropLast_eq_take, List.take_take, List.length_take, List.length_drop]
        congr 1
        omega
      rw [Rcllite.Decoder.run_readChars, hread, if_neg hbad, Decoder.chars, if_neg h0, Prog.bind_eq,
        Prog.run_bind_ok _ htake, hlast, hdec]
      exact .refused trivial hno

theorem string : ReadsAlike (fun s v => toChars s = some v) Decoder.string Rcllite.Decoder.readString := by
  refine (ReadsSame.uint32.alike (Decoder.readPrim_stringless .uint32)).bind (fun n v hn => ?_) ?_
  · rw [toNat_of_toUint32 hn]
    exact chars v.isLt
  · intro v r d r' _ c _
    exact ⟨(v.toNat : ℤ), toUint32_toNat v⟩

end ReadsAlike

/-- No two Python values stand for one C++ value. -/
def OneToOne {M V : Type} (toCpp : M → Option V) : Prop :=
  ∀ {m m' : M} {v : V}, toCpp m = some v → toCpp m' = some v → m = m'

section Fields

theorem unpack_of_toCpp {f : IntFormat} {n : ℤ} {v : f.prim.Val} (h : f.toCpp n = some v) :
    f.unpack (f.prim.toBytes v) = n := by
  have hpack := pack_eq h
  unfold IntFormat.toCpp at h
  split_ifs at h with hr
  rw [IntFormat.pack, if_pos hr] at hpack
  have hsize : f.prim.sizeof = f.size := by cases f <;> rfl
  refine (unpack_eq_iff ?_ hr).mpr (Except.ok.inj hpack).symm
  rw [Prim.toBytes_length, hsize]

theorem toCpp_oneToOne (f : IntFormat) : OneToOne f.toCpp := by
  intro m m' v h h'
  rw [← unpack_of_toCpp h, ← unpack_of_toCpp h']

theorem toChars_oneToOne : OneToOne toChars := by
  intro s s' raw h h'
  have heq := (ReadsAlike.toChars_valid h).symm.trans (ReadsAlike.toChars_valid h')
  exact Except.ok.inj heq

theorem toDoubles_oneToOne (n : ℕ) : OneToOne (toDoubles n) := by
  intro l l' v h h'
  unfold toDoubles at h h'
  by_cases hl : l.length = n
  · by_cases hl' : l'.length = n
    · rw [dif_pos hl] at h
      rw [dif_pos hl', ← h] at h'
      exact (congrArg List.Vector.toList (Option.some.inj h')).symm
    · rw [dif_neg hl'] at h'
      cases h'
  · rw [dif_neg hl] at h
    cases h

theorem toUint8s_injective : Function.Injective toUint8s := by
  intro l l' h
  have hbytes := congrArg (fun vs => vs.flatMap (Prim.toBytes .uint8)) h
  simpa only [WritesSame.flatMap_toUint8s] using hbytes

end Fields

section Classes

theorem Time.of_toCpp {m : Time} {v : Time.schema.Val} (h : m.toCpp = some v) :
    toInt32 m.sec = some v.1 ∧ toUint32 m.nanosec = some v.2.1 := by
  obtain ⟨sec, hsec, h⟩ := Option.bind_eq_some_iff.mp h
  obtain ⟨nanosec, hnanosec, h⟩ := Option.bind_eq_some_iff.mp h
  cases h
  exact ⟨hsec, hnanosec⟩

theorem Time.oneToOne : OneToOne Time.toCpp := by
  intro m m' v h h'
  obtain ⟨sec, nanosec⟩ := m
  obtain ⟨sec', nanosec'⟩ := m'
  have hsec := toCpp_oneToOne .i (Time.of_toCpp h).1 (Time.of_toCpp h').1
  have hnanosec := toCpp_oneToOne .I (Time.of_toCpp h).2 (Time.of_toCpp h').2
  exact Time.mk.injEq .. |>.mpr ⟨hsec, hnanosec⟩

theorem Header.of_toCpp {m : Header} {v : Header.schema.Val} (h : m.toCpp = some v) :
    m.stamp.toCpp = some v.1 ∧ toChars m.frameId = some v.2.1 := by
  obtain ⟨stamp, hstamp, h⟩ := Option.bind_eq_some_iff.mp h
  obtain ⟨frameId, hframeId, h⟩ := Option.bind_eq_some_iff.mp h
  cases h
  exact ⟨hstamp, hframeId⟩

theorem Header.oneToOne : OneToOne Header.toCpp := by
  intro m m' v h h'
  obtain ⟨stamp, frameId⟩ := m
  obtain ⟨stamp', frameId'⟩ := m'
  have hstamp := Time.oneToOne (Header.of_toCpp h).1 (Header.of_toCpp h').1
  have hframeId := toChars_oneToOne (Header.of_toCpp h).2 (Header.of_toCpp h').2
  exact Header.mk.injEq .. |>.mpr ⟨hstamp, hframeId⟩

theorem Header.reads_alike (old : Header.schema.Val) :
    ReadsAlike (fun m v => m.toCpp = some v) Header.read (Header.schema.deserialize old) := by
  have htime := (Time.reads_same old.1).alike (Time.schema.deserialize_stringless rfl _)
  refine .member htime (fun stamp v hstamp => ?_) (fun m v vs h => ⟨_, (Header.of_toCpp h).1⟩)
  refine .member .string (fun frameId u hframe => ?_) (fun m u us h => ⟨_, (Header.of_toCpp h).2⟩)
  refine ReadsSame.alike (.nil ?_) trivial
  simp only [Header.toCpp, hstamp, hframe]
  rfl

theorem Point.toCpp_injective : Function.Injective Point.toCpp := by
  rintro ⟨x, y, z⟩ ⟨x', y', z'⟩ h
  cases h
  rfl

theorem Quaternion.toCpp_injective : Function.Injective Quaternion.toCpp := by
  rintro ⟨x, y, z, w⟩ ⟨x', y', z', w'⟩ h
  cases h
  rfl

theorem Pose.toCpp_injective : Function.Injective Pose.toCpp := by
  rintro ⟨position, orientation⟩ ⟨position', orientation'⟩ h
  obtain ⟨hp, ho⟩ := Prod.mk.inj h
  exact Pose.mk.injEq .. |>.mpr ⟨Point.toCpp_injective hp, Quaternion.toCpp_injective (Prod.mk.inj ho).1⟩

theorem Transform.toCpp_injective : Function.Injective Transform.toCpp := by
  rintro ⟨translation, rotation⟩ ⟨translation', rotation'⟩ h
  obtain ⟨ht, hr⟩ := Prod.mk.inj h
  exact Transform.mk.injEq .. |>.mpr ⟨Point.toCpp_injective ht, Quaternion.toCpp_injective (Prod.mk.inj hr).1⟩

theorem StringMsg.of_toCpp {m : StringMsg} {v : stringSchema.Val} (h : m.toCpp = some v) :
    toChars m.data = some v.1 := by
  obtain ⟨data, hdata, h⟩ := Option.bind_eq_some_iff.mp h
  cases h
  exact hdata

theorem StringMsg.oneToOne : OneToOne StringMsg.toCpp := by
  intro m m' v h h'
  exact StringMsg.mk.injEq .. |>.mpr (toChars_oneToOne (StringMsg.of_toCpp h) (StringMsg.of_toCpp h'))

theorem StringMsg.reads_alike (old : stringSchema.Val) :
    ReadsAlike (fun m v => m.toCpp = some v) StringMsg.read (stringSchema.deserialize old) := by
  refine .member .string (fun data v hdata => ?_) (fun m v vs h => ⟨_, StringMsg.of_toCpp h⟩)
  refine ReadsSame.alike (.nil ?_) trivial
  simp only [StringMsg.toCpp, hdata]
  rfl

theorem PoseStamped.of_toCpp {m : PoseStamped} {v : PoseStamped.schema.Val} (h : m.toCpp = some v) :
    m.header.toCpp = some v.1 ∧ m.pose.toCpp = v.2.1 := by
  obtain ⟨header, hheader, h⟩ := Option.bind_eq_some_iff.mp h
  cases h
  exact ⟨hheader, rfl⟩

theorem PoseStamped.oneToOne : OneToOne PoseStamped.toCpp := by
  intro m m' v h h'
  have hheader := Header.oneToOne (PoseStamped.of_toCpp h).1 (PoseStamped.of_toCpp h').1
  have hpose := (PoseStamped.of_toCpp h).2.trans (PoseStamped.of_toCpp h').2.symm
  exact PoseStamped.mk.injEq .. |>.mpr ⟨hheader, Pose.toCpp_injective hpose⟩

theorem PoseStamped.reads_alike (old : PoseStamped.schema.Val) :
    ReadsAlike (fun m v => m.toCpp = some v) PoseStamped.read (PoseStamped.schema.deserialize old) := by
  refine .member (Header.reads_alike old.1) (fun header v hheader => ?_)
    (fun m v vs h => ⟨_, (PoseStamped.of_toCpp h).1⟩)
  refine ReadsSame.alike (.member (Pose.reads_same old.2.1) (fun pose u hpose => .nil ?_))
    (Members.deserialize_stringless _ rfl _)
  simp only [PoseStamped.toCpp, hheader, hpose]
  rfl

theorem TransformStamped.of_toCpp {m : TransformStamped} {v : TransformStamped.schema.Val} (h : m.toCpp = some v) :
    m.header.toCpp = some v.1 ∧ toChars m.childFrameId = some v.2.1 ∧ m.transform.toCpp = v.2.2.1 := by
  obtain ⟨header, hheader, h⟩ := Option.bind_eq_some_iff.mp h
  obtain ⟨child, hchild, h⟩ := Option.bind_eq_some_iff.mp h
  cases h
  exact ⟨hheader, hchild, rfl⟩

theorem TransformStamped.oneToOne : OneToOne TransformStamped.toCpp := by
  intro m m' v h h'
  obtain ⟨hheader, hchild, htransform⟩ := TransformStamped.of_toCpp h
  obtain ⟨hheader', hchild', htransform'⟩ := TransformStamped.of_toCpp h'
  exact TransformStamped.mk.injEq .. |>.mpr ⟨Header.oneToOne hheader hheader', toChars_oneToOne hchild hchild',
    Transform.toCpp_injective (htransform.trans htransform'.symm)⟩

theorem TransformStamped.reads_alike (old : TransformStamped.schema.Val) :
    ReadsAlike (fun m v => m.toCpp = some v) TransformStamped.read (TransformStamped.schema.deserialize old) := by
  refine .member (Header.reads_alike old.1) (fun header v hheader => ?_)
    (fun m v vs h => ⟨_, (TransformStamped.of_toCpp h).1⟩)
  refine .member .string (fun child u hchild => ?_) (fun m u us h => ⟨_, (TransformStamped.of_toCpp h).2.1⟩)
  refine ReadsSame.alike (.member (Transform.reads_same old.2.2.1) (fun transform x htransform => .nil ?_))
    (Members.deserialize_stringless _ rfl _)
  simp only [TransformStamped.toCpp, hheader, hchild, htransform]
  rfl

theorem Image.of_toCpp {m : Image} {v : Image.schema.Val} (h : m.toCpp = some v) :
    m.header.toCpp = some v.1 ∧ toUint32 m.height = some v.2.1 ∧ toUint32 m.width = some v.2.2.1 ∧
      toChars m.encoding = some v.2.2.2.1 ∧ toUint8 m.isBigendian = some v.2.2.2.2.1 ∧
      toUint32 m.step = some v.2.2.2.2.2.1 ∧ toUint8s m.data = v.2.2.2.2.2.2.1 := by
  obtain ⟨header, hheader, h⟩ := Option.bind_eq_some_iff.mp h
  obtain ⟨height, hheight, h⟩ := Option.bind_eq_some_iff.mp h
  obtain ⟨width, hwidth, h⟩ := Option.bind_eq_some_iff.mp h
  obtain ⟨encoding, hencoding, h⟩ := Option.bind_eq_some_iff.mp h
  obtain ⟨isBigendian, hbig, h⟩ := Option.bind_eq_some_iff.mp h
  obtain ⟨step, hstep, h⟩ := Option.bind_eq_some_iff.mp h
  cases h
  exact ⟨hheader, hheight, hwidth, hencoding, hbig, hstep, rfl⟩

theorem Image.oneToOne : OneToOne Image.toCpp := by
  intro m m' v h h'
  obtain ⟨hheader, hheight, hwidth, hencoding, hbig, hstep, hdata⟩ := Image.of_toCpp h
  obtain ⟨hheader', hheight', hwidth', hencoding', hbig', hstep', hdata'⟩ := Image.of_toCpp h'
  exact Image.mk.injEq .. |>.mpr ⟨Header.oneToOne hheader hheader', toCpp_oneToOne .I hheight hheight',
    toCpp_oneToOne .I hwidth hwidth', toChars_oneToOne hencoding hencoding', toCpp_oneToOne .B hbig hbig',
    toCpp_oneToOne .I hstep hstep', toUint8s_injective (hdata.trans hdata'.symm)⟩

theorem Image.reads_alike (old : Image.schema.Val) :
    ReadsAlike (fun m v => m.toCpp = some v) Image.read (Image.schema.deserialize old) := by
  have hword := Rcllite.Decoder.readPrim_stringless .uint32
  refine .member (Header.reads_alike old.1) (fun header _ hheader => ?_)
    (fun m v vs h => ⟨_, (Image.of_toCpp h).1⟩)
  refine .member (ReadsSame.uint32.alike hword) (fun height _ hheight => ?_)
    (fun m v vs h => ⟨_, (Image.of_toCpp h).2.1⟩)
  refine .member (ReadsSame.uint32.alike hword) (fun width _ hwidth => ?_)
    (fun m v vs h => ⟨_, (Image.of_toCpp h).2.2.1⟩)
  refine .member .string (fun encoding _ hencoding => ?_) (fun m v vs h => ⟨_, (Image.of_toCpp h).2.2.2.1⟩)
  refine ReadsSame.alike ?_ (Members.deserialize_stringless _ rfl _)
  refine .member .uint8 (fun isBigendian _ hbig => ?_)
  refine .member .uint32 (fun step _ hstep => ?_)
  refine .member (.byteSequence _ _) (fun data _ hdata => .nil ?_)
  simp only [Image.toCpp, hheader, hheight, hwidth, hencoding, hbig, hstep, hdata]
  rfl

theorem RegionOfInterest.oneToOne : OneToOne RegionOfInterest.toCpp := by
  intro m m' v h h'
  obtain ⟨_, hx, h⟩ := Option.bind_eq_some_iff.mp h
  obtain ⟨_, hy, h⟩ := Option.bind_eq_some_iff.mp h
  obtain ⟨_, hheight, h⟩ := Option.bind_eq_some_iff.mp h
  obtain ⟨_, hwidth, h⟩ := Option.bind_eq_some_iff.mp h
  cases h
  obtain ⟨_, hx', h'⟩ := Option.bind_eq_some_iff.mp h'
  obtain ⟨_, hy', h'⟩ := Option.bind_eq_some_iff.mp h'
  obtain ⟨_, hheight', h'⟩ := Option.bind_eq_some_iff.mp h'
  obtain ⟨_, hwidth', h'⟩ := Option.bind_eq_some_iff.mp h'
  injection h' with h'
  injection h' with hxv h'
  injection h' with hyv h'
  injection h' with hhv h'
  injection h' with hwv h'
  injection h' with hrectify
  subst hxv hyv hhv hwv
  exact RegionOfInterest.mk.injEq .. |>.mpr ⟨toCpp_oneToOne .I hx hx', toCpp_oneToOne .I hy hy',
    toCpp_oneToOne .I hheight hheight', toCpp_oneToOne .I hwidth hwidth', hrectify.symm⟩

theorem CameraInfo.of_toCpp {m : CameraInfo} {v : CameraInfo.schema.Val} (h : m.toCpp = some v) :
    m.header.toCpp = some v.1 ∧ toUint32 m.height = some v.2.1 ∧ toUint32 m.width = some v.2.2.1 ∧
      toChars m.distortionModel = some v.2.2.2.1 ∧ m.d = v.2.2.2.2.1 ∧
      toDoubles 9 m.k = some v.2.2.2.2.2.1 ∧ toDoubles 9 m.r = some v.2.2.2.2.2.2.1 ∧
      toDoubles 12 m.p = some v.2.2.2.2.2.2.2.1 ∧ toUint32 m.binningX = some v.2.2.2.2.2.2.2.2.1 ∧
      toUint32 m.binningY = some v.2.2.2.2.2.2.2.2.2.1 ∧ m.roi.toCpp = some v.2.2.2.2.2.2.2.2.2.2.1 := by
  obtain ⟨_, hheader, h⟩ := Option.bind_eq_some_iff.mp h
  obtain ⟨_, hheight, h⟩ := Option.bind_eq_some_iff.mp h
  obtain ⟨_, hwidth, h⟩ := Option.bind_eq_some_iff.mp h
  obtain ⟨_, hmodel, h⟩ := Option.bind_eq_some_iff.mp h
  obtain ⟨_, hk, h⟩ := Option.bind_eq_some_iff.mp h
  obtain ⟨_, hr, h⟩ := Option.bind_eq_some_iff.mp h
  obtain ⟨_, hp, h⟩ := Option.bind_eq_some_iff.mp h
  obtain ⟨_, hx, h⟩ := Option.bind_eq_some_iff.mp h
  obtain ⟨_, hy, h⟩ := Option.bind_eq_some_iff.mp h
  obtain ⟨_, hroi, h⟩ := Option.bind_eq_some_iff.mp h
  cases h
  exact ⟨hheader, hheight, hwidth, hmodel, rfl, hk, hr, hp, hx, hy, hroi⟩

theorem CameraInfo.oneToOne : OneToOne CameraInfo.toCpp := by
  intro m m' v h h'
  obtain ⟨hheader, hheight, hwidth, hmodel, hd, hk, hr, hp, hx, hy, hroi⟩ := CameraInfo.of_toCpp h
  obtain ⟨hheader', hheight', hwidth', hmodel', hd', hk', hr', hp', hx', hy', hroi'⟩ := CameraInfo.of_toCpp h'
  exact CameraInfo.mk.injEq .. |>.mpr ⟨Header.oneToOne hheader hheader', toCpp_oneToOne .I hheight hheight',
    toCpp_oneToOne .I hwidth hwidth', toChars_oneToOne hmodel hmodel', hd.trans hd'.symm, toDoubles_oneToOne 9 hk hk',
    toDoubles_oneToOne 9 hr hr', toDoubles_oneToOne 12 hp hp', toCpp_oneToOne .I hx hx', toCpp_oneToOne .I hy hy',
    RegionOfInterest.oneToOne hroi hroi'⟩

theorem CameraInfo.reads_alike (old : CameraInfo.schema.Val) :
    ReadsAlike (fun m v => m.toCpp = some v) CameraInfo.read (CameraInfo.schema.deserialize old) := by
  have hword := Rcllite.Decoder.readPrim_stringless .uint32
  refine .member (Header.reads_alike old.1) (fun header _ hheader => ?_)
    (fun m v vs h => ⟨_, (CameraInfo.of_toCpp h).1⟩)
  refine .member (ReadsSame.uint32.alike hword) (fun height _ hheight => ?_)
    (fun m v vs h => ⟨_, (CameraInfo.of_toCpp h).2.1⟩)
  refine .member (ReadsSame.uint32.alike hword) (fun width _ hwidth => ?_)
    (fun m v vs h => ⟨_, (CameraInfo.of_toCpp h).2.2.1⟩)
  refine .member .string (fun model _ hmodel => ?_) (fun m v vs h => ⟨_, (CameraInfo.of_toCpp h).2.2.2.1⟩)
  refine ReadsSame.alike ?_ (Members.deserialize_stringless _ rfl _)
  refine .doublesMember (by decide) (fun d k _ hk => ?_)
  refine .member (.doubles (by decide)) (fun r _ hr => ?_)
  refine .member (.doubles (by decide)) (fun p _ hp => ?_)
  refine .member .uint32 (fun binningX _ hx => ?_)
  refine .member .uint32 (fun binningY _ hy => ?_)
  refine .member (RegionOfInterest.reads_same _) (fun roi _ hroi => .nil ?_)
  simp only [CameraInfo.toCpp, hheader, hheight, hwidth, hmodel, hk, hr, hp, hx, hy, hroi]
  rfl

end Classes

/-- Python returns exactly the messages of the values that C++ decodes, and raises nothing but a `ValueError`
on what is left. -/
def DecodersAgree {M : Type} {schema : Members} (msg : Message M schema) : Prop :=
  ∀ b : List UInt8, b.length < 2^63 →
    (∀ m, msg.fromCdr b = .ok m ↔ ∃ v r, schema.decode true b = .ok (v, r) ∧ msg.toCpp m = some v) ∧
    ∀ e, msg.fromCdr b = .error e → e.IsValueError

theorem decodersAgree_of {M : Type} {schema : Members} {msg : Message M schema}
    (hread : ReadsAlike (fun m v => msg.toCpp m = some v) msg.read (schema.deserialize schema.zero))
    (hone : OneToOne msg.toCpp) : DecodersAgree msg := by
  intro b hlen
  unfold Message.fromCdr Members.decode Members.decodeInto
  rcases new_same b with ⟨r, hcpp, hin, rfl, hpy⟩ | ⟨f, e, hcpp, hpy, he⟩
  · have hboth := hread r hin hlen
    rw [hcpp, hpy]
    dsimp only
    generalize msg.read.run pyStep ⟨r.buf, r.pos⟩ = x at hboth ⊢
    generalize (schema.deserialize schema.zero).run (readStep true) r = y at hboth ⊢
    cases hboth with
    | same hagree =>
      cases hagree with
      | @ok a v r' hR hin' hlen' =>
        refine ⟨fun m => ⟨?_, ?_⟩, fun e h => by cases h⟩
        · intro h
          obtain rfl : a = m := Except.ok.inj h
          exact ⟨v, r', rfl, hR⟩
        · rintro ⟨v', r'', h, hm⟩
          cases h
          exact congrArg Except.ok (hone hR hm)
      | error he =>
        refine ⟨fun m => ⟨(fun h => by cases h), ?_⟩, ?_⟩
        · rintro ⟨v, r', h, -⟩
          cases h
        · intro e h
          cases h
          exact he
    | refused he hb =>
      refine ⟨fun m => ⟨(fun h => by cases h), ?_⟩, ?_⟩
      · rintro ⟨v, r', h, hm⟩
        cases h
        exact absurd hm (hb m)
      · intro e h
        cases h
        exact he
  · rw [hcpp, hpy]
    refine ⟨fun m => ⟨(fun h => by cases h), ?_⟩, ?_⟩
    · rintro ⟨v, r, h, -⟩
      cases h
    · intro e' h
      cases h
      exact he

theorem emptyMessage_agree : DecodersAgree emptyMessage := by
  refine decodersAgree_of (ReadsSame.alike ?_ trivial) (fun _ _ => rfl)
  exact ReadsSame.nil (T := fun m v => emptyMessage.toCpp m = some v) rfl

theorem stringMessage_agree : DecodersAgree stringMessage :=
  decodersAgree_of (StringMsg.reads_alike _) StringMsg.oneToOne

theorem poseStampedMessage_agree : DecodersAgree poseStampedMessage :=
  decodersAgree_of (PoseStamped.reads_alike _) PoseStamped.oneToOne

theorem transformStampedMessage_agree : DecodersAgree transformStampedMessage :=
  decodersAgree_of (TransformStamped.reads_alike _) TransformStamped.oneToOne

theorem imageMessage_agree : DecodersAgree imageMessage := decodersAgree_of (Image.reads_alike _) Image.oneToOne

theorem cameraInfoMessage_agree : DecodersAgree cameraInfoMessage :=
  decodersAgree_of (CameraInfo.reads_alike _) CameraInfo.oneToOne

/-- On any bytes at all, for every shipped message. -/
theorem decoders_agree_on_every_buffer :
    DecodersAgree emptyMessage ∧ DecodersAgree stringMessage ∧ DecodersAgree poseStampedMessage ∧
      DecodersAgree transformStampedMessage ∧ DecodersAgree imageMessage ∧ DecodersAgree cameraInfoMessage :=
  ⟨emptyMessage_agree, stringMessage_agree, poseStampedMessage_agree, transformStampedMessage_agree,
    imageMessage_agree, cameraInfoMessage_agree⟩

end Rcllite.Py
