import Rcllite.CdrSafety
import Rcllite.PyWriting

/-! Both readers accept the same bytes. Each field is followed through both
codecs from an arbitrary position; wherever one of them gives up, the other one
does, and the Python one with a `ValueError`. -/
namespace Rcllite.Py
open Interaction

def ValidUtf8 (raw : List UInt8) : Prop := raw.toByteArray.IsValidUTF8

/-- Every string that the C++ code gets to read is UTF-8. -/
def StringsValid {β : Type} (cpp : Rcllite.Decoder β) (r : Rcllite.CdrReader) : Prop :=
  ∀ len r₁ raw r₂, (ReadOp.readChars len, r₁) ∈ cpp.calls (readStep true) r →
    r₁.readChars len = .ok (raw, r₂) → ValidUtf8 raw

/-- The two ways a field can go: both readers move to the same place, or both
give up. -/
inductive Agree {α β : Type} (R : α → β → Prop) :
    Except PyError (α × CdrReader) → Except Failure (β × Rcllite.CdrReader) → Prop
  | ok {a : α} {b : β} {r : Rcllite.CdrReader} (hR : R a b) (hin : r.Inside) (hlen : r.buf.length < 2^63) :
      Agree R (.ok (a, ⟨r.buf, r.pos⟩)) (.ok (b, r))
  | error {e : PyError} {f : Failure} (he : e.IsValueError) : Agree R (.error e) (.error f)

theorem Agree.of_ok {α β : Type} {R : α → β → Prop} {x : Except PyError (α × CdrReader)} {b : β}
    {r : Rcllite.CdrReader} (h : Agree R x (.ok (b, r))) :
    ∃ a, x = .ok (a, ⟨r.buf, r.pos⟩) ∧ R a b ∧ r.Inside ∧ r.buf.length < 2^63 := by
  cases h with
  | ok hR hin hlen => exact ⟨_, rfl, hR, hin, hlen⟩

theorem Agree.of_error {α β : Type} {R : α → β → Prop} {x : Except PyError (α × CdrReader)} {f : Failure}
    (h : Agree R x (.error f)) : ∃ e, x = .error e ∧ e.IsValueError := by
  cases h with
  | error he => exact ⟨_, rfl, he⟩

/-- From every position inside every buffer, the two programs agree. -/
def ReadsSame {α β : Type} (R : α → β → Prop) (py : Decoder α) (cpp : Rcllite.Decoder β) : Prop :=
  ∀ r : Rcllite.CdrReader, r.Inside → r.buf.length < 2^63 → StringsValid cpp r →
    Agree R (py.run pyStep ⟨r.buf, r.pos⟩) (cpp.run (readStep true) r)

section Strings
variable {β γ : Type} {p : Rcllite.Decoder β} {k : β → Rcllite.Decoder γ} {r r' : Rcllite.CdrReader}

theorem StringsValid.first (h : StringsValid (p.bind k) r) : StringsValid p r := by
  intro len r₁ raw r₂ hmem hok
  refine h len r₁ raw r₂ ?_ hok
  rw [Prog.calls_bind]
  exact List.mem_append_left _ hmem

theorem StringsValid.second (h : StringsValid (p.bind k) r) {b : β}
    (hrun : p.run (readStep true) r = .ok (b, r')) : StringsValid (k b) r' := by
  intro len r₁ raw r₂ hmem hok
  refine h len r₁ raw r₂ ?_ hok
  rw [Prog.calls_bind, hrun]
  exact List.mem_append_right _ hmem

end Strings

namespace ReadsSame
variable {α β γ δ : Type} {R : α → β → Prop} {S : γ → δ → Prop}

theorem done {a : α} {b : β} (h : R a b) : ReadsSame R (.done a) (.done b) := by
  intro r hin hlen _
  exact .ok h hin hlen

/-- Programs that agree step by step agree. -/
theorem bind {py : Decoder α} {cpp : Rcllite.Decoder β} (h : ReadsSame R py cpp) {k : α → Decoder γ}
    {l : β → Rcllite.Decoder δ} (hk : ∀ a b, R a b → ReadsSame S (k a) (l b)) :
    ReadsSame S (py.bind k) (cpp.bind l) := by
  intro r hin hlen hs
  have hfirst := h r hin hlen hs.first
  -- the C++ side decides which way both go
  cases hcpp : cpp.run (readStep true) r with
  | error f =>
    rw [hcpp] at hfirst
    obtain ⟨e, hpy, he⟩ := hfirst.of_error
    rw [Prog.run_bind_error _ hpy, Prog.run_bind_error _ hcpp]
    exact .error he
  | ok br =>
    obtain ⟨b, r'⟩ := br
    rw [hcpp] at hfirst
    obtain ⟨a, hpy, hR, hin', hlen'⟩ := hfirst.of_ok
    rw [Prog.run_bind_ok _ hpy, Prog.run_bind_ok _ hcpp]
    exact hk a b hR r' hin' hlen' (hs.second hcpp)

/-- The C++ program may go on to rearrange its result. -/
theorem map_right {py : Decoder α} {cpp : Rcllite.Decoder β} {f : β → δ} {T : α → δ → Prop}
    (h : ReadsSame (fun a b => T a (f b)) py cpp) : ReadsSame T py (cpp.bind (fun b => .done (f b))) := by
  rw [← Prog.bind_done py]
  exact h.bind (fun a b hR => done hR)

theorem mono {py : Decoder α} {cpp : Rcllite.Decoder β} {T : α → β → Prop} (h : ReadsSame R py cpp)
    (hRT : ∀ a b, R a b → T a b) : ReadsSame T py cpp := by
  rw [← Prog.bind_done py, ← Prog.bind_done cpp]
  exact h.bind (fun a b hR => done (hRT a b hR))

theorem pad {n : ℕ} (hn : 0 < n ∧ n ≤ 8) :
    ReadsSame (fun _ _ => True) (Decoder.pad n) (Rcllite.Decoder.alignTo n) := by
  intro r hin hlen _
  rw [Decoder.run_pad, Rcllite.Decoder.run_alignTo, hin.alignTo_eq hlen hn, CdrReader.pad,
    padding_eq hn.1 hin.1]
  dsimp only
  split_ifs with hend
  · exact .error trivial
  · exact .ok trivial (hin.advance (not_lt.mp hend)) hlen

/-- C++ aligns to one byte where Python does nothing. -/
theorem skip_alignTo_one {py : Decoder α} {cpp : Rcllite.Decoder β} (h : ReadsSame R py cpp) :
    ReadsSame R py ((Rcllite.Decoder.alignTo 1).bind (fun _ => cpp)) := by
  intro r hin hlen hs
  have hrun : (Rcllite.Decoder.alignTo 1).run (readStep true) r = .ok ((), r) := by
    rw [Rcllite.Decoder.run_alignTo, hin.alignTo_eq hlen (by decide), padding_one, if_neg]
    · rfl
    · exact not_lt.mpr hin.2
  rw [Prog.run_bind_ok _ hrun]
  exact h r hin hlen (hs.second hrun)

theorem take {n count elem : ℕ} (hc : count*elem = n) (hn : n < 2^62) : ReadsSame
    (fun raw raw' => raw = raw' ∧ raw.length = n) (Decoder.take n) (Rcllite.Decoder.readBytes count elem) := by
  intro r hin hlen _
  rw [Decoder.run_take, Rcllite.Decoder.run_readBytes, hc, sizeT_of_lt (by omega), hin.readBytes_eq hlen hn,
    CdrReader.take]
  dsimp only
  split_ifs with hend
  · exact .error trivial
  · have hraw : ((r.buf.drop r.pos).take n).length = n := by
      rw [List.length_take, List.length_drop]
      omega
    exact .ok ⟨rfl, hraw⟩ (hin.advance (not_lt.mp hend)) hlen

/-- What the length guard turns down, Python fails to take. -/
theorem guard {n : ℕ} {py : Decoder α} {cpp : Rcllite.Decoder β} (h : ReadsSame R py cpp)
    (hshort : ∀ r : Rcllite.CdrReader, r.Inside → r.buf.length < r.pos + n →
      ∃ e, py.run pyStep ⟨r.buf, r.pos⟩ = .error e ∧ e.IsValueError) :
    ReadsSame R py ((Rcllite.Decoder.guardRemaining n).bind (fun _ => cpp)) := by
  intro r hin hlen hs
  have hle := hin.2
  by_cases hn : n > r.remaining
  · have hrun : (Rcllite.Decoder.guardRemaining n).run (readStep true) r = .error .returnFalse := by
      rw [Rcllite.Decoder.run_guardRemaining, Rcllite.CdrReader.guardRemaining, if_pos hn]
    rw [Prog.run_bind_error _ hrun]
    rw [hin.remaining_eq hlen] at hn
    obtain ⟨e, hrun, he⟩ := hshort r hin (by omega)
    rw [hrun]
    exact .error he
  · have hrun : (Rcllite.Decoder.guardRemaining n).run (readStep true) r = .ok ((), r) := by
      rw [Rcllite.Decoder.run_guardRemaining, Rcllite.CdrReader.guardRemaining, if_neg hn]
    rw [Prog.run_bind_ok _ hrun]
    exact h r hin hlen (hs.second hrun)

end ReadsSame

theorem unpack_eq {f : IntFormat} {raw : List UInt8} (h : raw.length = f.size) :
    f.toCpp (f.unpack raw) = some (f.prim.ofBytes raw) := by
  have hlt := LittleEndian.ofBytes_lt raw
  rw [h] at hlt
  have hr : f.InRange (f.unpack raw) := by
    cases f with
    | B =>
      have hraw : LittleEndian.ofBytes raw < 256 := hlt
      change 0 ≤ (LittleEndian.ofBytes raw : ℤ) ∧ (LittleEndian.ofBytes raw : ℤ) < 0x100
      omega
    | i =>
      have hlow := Int.le_bmod (x := LittleEndian.ofBytes raw) (m := 2^32) (by decide)
      have hhigh := Int.bmod_lt (x := LittleEndian.ofBytes raw) (m := 2^32) (by decide)
      exact ⟨hlow, hhigh⟩
    | I =>
      have hraw : LittleEndian.ofBytes raw < 4294967296 := hlt
      change 0 ≤ (LittleEndian.ofBytes raw : ℤ) ∧ (LittleEndian.ofBytes raw : ℤ) < 0x100000000
      omega
  unfold IntFormat.toCpp
  rw [if_pos hr]
  cases f with
  | B => exact congrArg some (BitVec.ofInt_natCast 8 _)
  | i =>
    have hword : BitVec.ofInt 32 (Int.bmod (LittleEndian.ofBytes raw) (2^32)) =
        BitVec.ofNat 32 (LittleEndian.ofBytes raw) := by
      rw [← BitVec.toInt_ofNat', BitVec.ofInt_toInt]
    exact congrArg some hword
  | I => exact congrArg some (BitVec.ofInt_natCast 32 _)

theorem mapM_toChar? (cs : List Char) : (cs.map CodePoint.ofChar).mapM CodePoint.toChar? = some cs := by
  induction cs with
  | nil => rfl
  | cons c cs ih =>
    rw [List.map_cons, List.mapM_cons, ih, CodePoint.toChar?_ofChar]
    rfl

/-- What decodes was encoded by the same codec. -/
theorem encode_decodeUtf8 {raw : List UInt8} (h : ValidUtf8 raw) :
    ∃ s, decodeUtf8 raw = .ok s ∧ toChars s = some raw := by
  obtain ⟨cs, hcs⟩ := h
  refine ⟨cs.map CodePoint.ofChar, ?_, ?_⟩
  · unfold decodeUtf8
    rw [hcs, List.utf8Decode?_utf8Encode]
  · have hraw : cs.flatMap String.utf8EncodeChar = raw := by
      have := congrArg (fun b : ByteArray => b.data.toList) hcs
      simpa [List.utf8Encode] using this.symm
    unfold toChars encodeUtf8
    rw [mapM_toChar?]
    exact congrArg some hraw

theorem toNat_of_toUint32 {n : ℤ} {v : BitVec 32} (h : toUint32 n = some v) : n.toNat = v.toNat := by
  unfold toUint32 IntFormat.toCpp at h
  split_ifs at h with hr
  have hv : v = BitVec.ofInt 32 n := (Option.some.inj h).symm
  have hlt : n < 4294967296 := hr.2
  rw [hv, BitVec.toNat_ofInt, Int.emod_eq_of_lt hr.1 (by push_cast; omega)]

namespace ReadsSame

theorem unpacked (f : IntFormat) : ReadsSame (fun n v => f.toCpp n = some v) (Decoder.unpacked f)
    ((Rcllite.Decoder.readBytes 1 f.prim.sizeof).bind (fun raw => .done (f.prim.ofBytes raw))) := by
  have hsize : 1*f.prim.sizeof = f.size := by cases f <;> rfl
  have hsmall : f.size < 2^62 := by cases f <;> decide
  refine (take hsize hsmall).bind (fun raw raw' hraw => done ?_)
  obtain ⟨rfl, hlen⟩ := hraw
  exact unpack_eq hlen

theorem uint8 : ReadsSame (fun n v => toUint8 n = some v) Decoder.uint8 (Rcllite.Decoder.readPrim .uint8) :=
  skip_alignTo_one (unpacked .B)

theorem int32 : ReadsSame (fun n v => toInt32 n = some v) Decoder.int32 (Rcllite.Decoder.readPrim .int32) :=
  (pad (by decide)).bind (fun _ _ _ => unpacked .i)

theorem uint32 : ReadsSame (fun n v => toUint32 n = some v) Decoder.uint32 (Rcllite.Decoder.readPrim .uint32) :=
  (pad (by decide)).bind (fun _ _ _ => unpacked .I)

theorem boolean : ReadsSame (fun b v => b = v) Decoder.boolean (Rcllite.Decoder.readPrim .bool) := by
  apply skip_alignTo_one
  refine (take rfl (by decide : 1 < 2^62)).bind (fun raw raw' hraw => done ?_)
  obtain ⟨rfl, hlen⟩ := hraw
  obtain ⟨b, rfl⟩ := List.length_eq_one_iff.mp hlen
  change (([b] : List UInt8) != [0]) = (b.toNat + 256*0 != 0)
  by_cases hb : b = 0
  · subst hb
    rfl
  · have hb' : b.toNat ≠ 0 := fun h => hb (UInt8.toNat_inj.mp h)
    have hleft : (([b] : List UInt8) != [0]) = true := by simp [hb]
    have hright : (b.toNat + 256*0 != 0) = true := by simp [hb']
    exact hleft.trans hright.symm

theorem float64 : ReadsSame (fun x v => x = v) Decoder.float64 (Rcllite.Decoder.readPrim .float64) := by
  refine (pad (by decide)).bind (fun _ _ _ => ?_)
  refine (take rfl (by decide : 8 < 2^62)).bind (fun raw raw' hraw => done ?_)
  obtain ⟨rfl, -⟩ := hraw
  rfl

/-- The characters of a string: the one place where UTF-8 matters. -/
theorem chars {len : ℕ} (hlen : len < 2^32) :
    ReadsSame (fun s v => toChars s = some v) (Decoder.chars len) (Rcllite.Decoder.readChars len) := by
  intro r hin hbuf hs
  have hrun := Rcllite.Decoder.run_readChars true len r
  have hread := hin.readChars_eq hbuf hlen
  rw [hrun]
  by_cases h0 : len = 0
  · rw [hread, if_pos (Or.inl h0), Decoder.chars, if_pos h0]
    exact .error trivial
  rw [Decoder.chars, if_neg h0]
  by_cases hend : r.pos + len > r.buf.length
  · have htake : (Decoder.take len).run pyStep ⟨r.buf, r.pos⟩ =
        .error (.valueError "CDR read past end of buffer") := by
      rw [Decoder.run_take, CdrReader.take, if_pos hend]
    rw [hread, if_pos (Or.inr hend), Prog.bind_eq, Prog.run_bind_error _ htake]
    exact .error trivial
  · have hok : r.readChars len =
        .ok ((r.buf.drop r.pos).take (len - 1), { r with pos := r.pos + len }) := by
      rw [hread, if_neg (not_or.mpr ⟨h0, hend⟩)]
    have hcalls : (Rcllite.Decoder.readChars len).calls (readStep true) r = [(ReadOp.readChars len, r)] :=
      Prog.calls_op _ _ _
    have hmem : (ReadOp.readChars len, r) ∈ (Rcllite.Decoder.readChars len).calls (readStep true) r :=
      hcalls ▸ List.mem_singleton_self _
    obtain ⟨s, hdec, henc⟩ := encode_decodeUtf8 (hs len r _ _ hmem hok)
    have htake : (Decoder.take len).run pyStep ⟨r.buf, r.pos⟩ =
        .ok ((r.buf.drop r.pos).take len, ⟨r.buf, r.pos + len⟩) := by
      rw [Decoder.run_take, CdrReader.take, if_neg hend]
    have hlast : ((r.buf.drop r.pos).take len).dropLast = (r.buf.drop r.pos).take (len - 1) := by
      rw [List.dropLast_eq_take, List.take_take, List.length_take, List.length_drop]
      congr 1
      omega
    rw [Prog.bind_eq, Prog.run_bind_ok _ htake, hlast, hdec, hok]
    refine Agree.ok ?_ (hin.advance (not_lt.mp hend)) hbuf
    exact henc

theorem string : ReadsSame (fun s v => toChars s = some v) Decoder.string Rcllite.Decoder.readString := by
  refine uint32.bind (fun n v hn => ?_)
  rw [toNat_of_toUint32 hn]
  exact chars v.isLt

/-- The length prefix of a sequence. -/
theorem seqLength {k : ℕ → Decoder γ} {l : BitVec 32 → Rcllite.Decoder δ}
    (h : ∀ n : BitVec 32, ReadsSame S (k n.toNat) (l n)) :
    ReadsSame S ((Decoder.pad 4).bind (fun _ => Decoder.uint32.bind (fun n => k n.toNat)))
      ((Rcllite.Decoder.alignTo 4).bind (fun _ => Rcllite.Decoder.readUint32.bind l)) := by
  refine (pad (by decide)).bind (fun _ _ _ => ?_)
  refine uint32.bind (fun n v hn => ?_)
  rw [toNat_of_toUint32 hn]
  exact h v

/-- Taking more than is left is a `ValueError`. -/
theorem take_short {n m : ℕ} (hm : n ≤ m) (r : Rcllite.CdrReader) (h : r.buf.length < r.pos + n) :
    ∃ e, (Decoder.take m).run pyStep ⟨r.buf, r.pos⟩ = .error e ∧ e.IsValueError := by
  refine ⟨.valueError "CDR read past end of buffer", ?_, trivial⟩
  rw [Decoder.run_take, CdrReader.take, if_pos]
  change r.buf.length < r.pos + m
  omega

theorem ofBlocks_uint8 {n : ℕ} {raw : List UInt8} (h : raw.length = n) :
    (ofBlocks .uint8 n raw).toList = toUint8s raw := by
  have hlen : (toUint8s raw).length = n := (List.length_map _).trans h
  have := ofBlocks_toList .uint8 (toUint8s raw)
  rwa [WritesSame.flatMap_toUint8s, hlen] at this

theorem byteSequence (elem : Prim.Val .uint8 → Rcllite.Decoder (Prim.Val .uint8)) (old : List (Prim.Val .uint8)) :
    ReadsSame (fun data v => toUint8s data = v) Decoder.byteSequence
      (emitDeserialize (.prim .uint8) elem .seq old) := by
  refine seqLength (k := Decoder.take) (fun n => guard ?_ (fun r _ => take_short (Nat.le_refl _) r))
  change ReadsSame _ _ (deserializePrimSeq .uint8 n.toNat)
  unfold deserializePrimSeq
  rw [if_neg (by decide)]
  have hsmall : n.toNat < 2^62 := n.isLt.trans (by decide)
  by_cases hn : n.toNat ≠ 0
  · rw [if_pos hn]
    refine skip_alignTo_one (map_right ((take (Nat.mul_one n.toNat) hsmall).mono ?_))
    rintro raw raw' ⟨rfl, hlen⟩
    exact (ofBlocks_uint8 hlen).symm
  · rw [if_neg hn, not_not.mp hn]
    intro r hin hlen _
    rw [Decoder.run_take, CdrReader.take, if_neg]
    · exact .ok rfl hin hlen
    · exact not_lt.mpr hin.2

theorem takeDoubles {n : ℕ} (hn : n*8 < 2^62) : ReadsSame (fun l (v : List.Vector (Prim.Val .float64) n) => l = v.toList)
    (Decoder.takeDoubles n)
    ((Rcllite.Decoder.readBytes n 8).bind (fun raw => .done (ofBlocks .float64 n raw))) := by
  refine (take rfl hn).bind (fun raw raw' hraw => done ?_)
  obtain ⟨rfl, -⟩ := hraw
  rfl

theorem toDoubles_toList {n : ℕ} (v : List.Vector (Prim.Val .float64) n) : toDoubles n v.toList = some v :=
  dif_pos v.toList_length

theorem doubles {n : ℕ} (hn : n*8 < 2^62) : ReadsSame (fun l v => toDoubles n l = some v)
    (Decoder.doubles n) (deserializePrimArray .float64 n) := by
  refine (pad (by decide)).bind (fun _ _ _ => ?_)
  refine (takeDoubles hn).mono ?_
  rintro l v rfl
  exact toDoubles_toList v

end ReadsSame

/-- `double_sequence` behind its length, and the `doubles` that follow it. -/
def tailThenDoubles (count n : ℕ) : Decoder (List (BitVec 64) × List (BitVec 64)) :=
  (Decoder.pad 8).bind fun _ => (Decoder.takeDoubles count).bind fun d =>
    (Decoder.doubles n).bind fun k => .done (d, k)

/-- The same two members in C++. -/
def seqThenArray (count n : ℕ) :
    Rcllite.Decoder (List (Prim.Val .float64) × List.Vector (Prim.Val .float64) n) :=
  (deserializePrimSeq .float64 count).bind fun d =>
    (deserializePrimArray .float64 n).bind fun v => .done (d, v)

/-- Python's padding after an empty `double_sequence` is the padding that the
next array of doubles asks for. -/
theorem tailThenDoubles_zero (n : ℕ) {r : CdrReader} (hr : 4 ≤ r.pos) : (tailThenDoubles 0 n).run pyStep r =
    ((Decoder.doubles n).bind fun k => .done ([], k)).run pyStep r := by
  unfold tailThenDoubles Decoder.doubles
  simp only [Prog.bind_eq, Prog.bind_assoc]
  by_cases hend : r.pos + padding 8 r.pos > r.data.length
  · have hpad : (Decoder.pad 8).run pyStep r =
        .error (.valueError "CDR alignment runs past end of buffer") := by
      rw [Decoder.run_pad, CdrReader.pad, if_pos hend]
    rw [Prog.run_bind_error _ hpad, Prog.run_bind_error _ hpad]
  · let r' : CdrReader := ⟨r.data, r.pos + padding 8 r.pos⟩
    have hpad : (Decoder.pad 8).run pyStep r = .ok ((), r') := by
      rw [Decoder.run_pad, CdrReader.pad, if_neg hend]
    have htake : (Decoder.takeDoubles 0).run pyStep r' = .ok ([], r') := by
      have hraw : (Decoder.take (0*8)).run pyStep r' = .ok ([], r') := by
        rw [Decoder.run_take, CdrReader.take, if_neg]
        · rw [Nat.zero_mul, List.take_zero]
          rfl
        · rw [Nat.zero_mul]
          exact hend
      exact Prog.run_bind_ok _ hraw _
    -- the second request finds the position aligned
    have hzero : padding 8 r'.pos = 0 := by
      have h4 : 4 ≤ r'.pos := hr.trans (Nat.le_add_right _ _)
      have hoff : r'.pos - 4 = r.pos - 4 + Rcllite.padding 8 (r.pos - 4) := by
        rw [← padding_eq (by decide) hr]
        change r.pos + padding 8 r.pos - 4 = r.pos - 4 + padding 8 r.pos
        omega
      rw [padding_eq (by decide) h4, hoff]
      exact padding_eq_zero 8 _ (padding_aligned 8 _ (by decide))
    have hagain : (Decoder.pad 8).run pyStep r' = .ok ((), r') := by
      rw [Decoder.run_pad, CdrReader.pad, hzero, if_neg]
      · rfl
      · exact hend
    rw [Prog.run_bind_ok _ hpad, Prog.run_bind_ok _ hpad, Prog.run_bind_ok _ htake,
      Prog.run_bind_ok _ hagain]

namespace ReadsSame

/-- A `double_sequence` that is followed by an array of doubles: what Python
pads too early, C++ pads right after. -/
theorem seqThenArray {count n : ℕ} (hc : count < 2^32) (hn : n*8 < 2^62) :
    ReadsSame (fun dk dv => dk.1 = dv.1 ∧ toDoubles n dk.2 = some dv.2)
      (tailThenDoubles count n) (seqThenArray count n) := by
  by_cases h0 : count = 0
  · subst h0
    intro r hin hlen hs
    rw [tailThenDoubles_zero n hin.1]
    exact (doubles hn).bind (fun k v hk => done ⟨rfl, hk⟩) r hin hlen hs
  unfold tailThenDoubles Py.seqThenArray deserializePrimSeq
  rw [if_neg (by decide), if_pos h0]
  simp only [Prog.bind_eq, Prog.pure_eq, Prog.bind_assoc, Prog.done_bind]
  refine (pad (by decide)).bind (fun _ _ _ => ?_)
  refine (take rfl (by omega)).bind (fun raw raw' hraw => ?_)
  obtain ⟨rfl, -⟩ := hraw
  exact (doubles hn).bind (fun k v hk => done ⟨rfl, hk⟩)

/-- A count that the length guard turns down cannot be taken. -/
theorem tailThenDoubles_short {count n : ℕ} (r : Rcllite.CdrReader)
    (h : r.buf.length < r.pos + count) :
    ∃ e, (tailThenDoubles count n).run pyStep ⟨r.buf, r.pos⟩ = .error e ∧ e.IsValueError := by
  unfold tailThenDoubles
  by_cases hend : r.pos + padding 8 r.pos > r.buf.length
  · refine ⟨.valueError "CDR alignment runs past end of buffer", ?_, trivial⟩
    apply Prog.run_bind_error
    rw [Decoder.run_pad, CdrReader.pad, if_pos hend]
  · let r' : Rcllite.CdrReader := ⟨r.buf, r.pos + padding 8 r.pos⟩
    have hpad : (Decoder.pad 8).run pyStep ⟨r.buf, r.pos⟩ = .ok ((), ⟨r'.buf, r'.pos⟩) := by
      rw [Decoder.run_pad, CdrReader.pad, if_neg hend]
    have hfar : r'.buf.length < r'.pos + count := by
      change r.buf.length < r.pos + padding 8 r.pos + count
      omega
    obtain ⟨e, hrun, he⟩ := take_short (by omega : count ≤ count*8) r' hfar
    refine ⟨e, ?_, he⟩
    rw [Prog.run_bind_ok _ hpad]
    apply Prog.run_bind_error
    exact Prog.run_bind_error _ hrun _

end ReadsSame

end Rcllite.Py
