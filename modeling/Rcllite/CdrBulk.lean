import Rcllite.CdrRoundTrip

/-! The sequence helpers of `msg_traits.hpp`, and the bulk copies of generated
code compared with them. A bulk copy aligns once and the loop at every element;
behind the first element the loop finds nothing left to align. -/
namespace Rcllite
open Interaction

def writeSequence {T : Type} (v : List T) (serializeElem : T → CdrWriter → CdrWriter) (w : CdrWriter) :
    CdrWriter :=
  writeEach serializeElem v ((w.alignTo 4).writeUint32 (BitVec.ofNat 32 v.length))

/-- `fresh` is the `T e{}` every element is read into; an element reader that
returns `false` stops the loop like one that throws. -/
def readSequence {T : Type} (fresh : T) (deserializeElem : T → Decoder T) : Decoder (List T) := do
  Decoder.alignTo 4
  let n ← Decoder.readUint32
  Decoder.guardRemaining n.toNat
  (deserializeElem fresh).times n.toNat

theorem Prim.sizeof_cases (p : Prim) : p.sizeof = 1 ∨ p.sizeof = 2 ∨ p.sizeof = 4 ∨ p.sizeof = 8 := by
  cases p <;> decide

theorem Prim.sizeof_dvd (p : Prim) : p.sizeof ∣ 8 := by
  cases p <;> decide

section Write

theorem CdrWriter.writeBytes_writeBytes (w : CdrWriter) (a b : List UInt8) :
    (w.writeBytes a).writeBytes b = w.writeBytes (a ++ b) :=
  CdrWriter.ext (List.append_assoc w.buf a b)

theorem CdrWriter.alignTo_of_aligned {w : CdrWriter} {n : ℕ} (h : w.payloadOffset % n = 0) :
    w.alignTo n = w := by
  apply CdrWriter.ext
  rw [CdrWriter.alignTo_buf, padding_eq_zero n _ h, List.replicate_zero, List.append_nil]

theorem CdrWriter.payloadOffset_writeBytes (w : CdrWriter) (data : List UInt8) :
    (w.writeBytes data).payloadOffset = w.payloadOffset + data.length := by
  have := w.header_le
  simp only [CdrWriter.payloadOffset, CdrWriter.writeBytes_buf, List.length_append]
  omega

theorem CdrWriter.alignTo_aligned (w : CdrWriter) {n : ℕ} (hn : 0 < n) :
    (w.alignTo n).payloadOffset % n = 0 := by
  rw [CdrWriter.alignTo, CdrWriter.payloadOffset_writeBytes, List.length_replicate]
  exact padding_aligned n w.payloadOffset hn

/-- Aligning twice is aligning once. -/
theorem CdrWriter.alignTo_alignTo (w : CdrWriter) {n : ℕ} (hn : 0 < n) :
    (w.alignTo n).alignTo n = w.alignTo n :=
  CdrWriter.alignTo_of_aligned (w.alignTo_aligned hn)

theorem writeUint32_alignTo (v : BitVec 32) (w : CdrWriter) :
    (w.alignTo 4).writeUint32 v = w.writeUint32 v := by
  change ((w.alignTo 4).alignTo 4).writeBytes _ = (w.alignTo 4).writeBytes _
  rw [w.alignTo_alignTo (by decide)]

/-- From an aligned offset the element loop writes the objects back to back. -/
theorem writeEach_aligned (p : Prim) (f : List p.Val) (w : CdrWriter)
    (h : w.payloadOffset % p.sizeof = 0) :
    writeEach (CdrWriter.writePrim p) f w = w.writeBytes (f.flatMap p.toBytes) := by
  induction f generalizing w with
  | nil => exact CdrWriter.ext (List.append_nil w.buf).symm
  | cons e f ih =>
    have he : CdrWriter.writePrim p e w = w.writeBytes (p.toBytes e) := by
      rw [CdrWriter.writePrim_eq_writeScalar, CdrWriter.writeScalar, CdrWriter.writeAligned,
        CdrWriter.alignTo_of_aligned h]
    have hnext : (w.writeBytes (p.toBytes e)).payloadOffset % p.sizeof = 0 := by
      rw [CdrWriter.payloadOffset_writeBytes, Prim.toBytes_length, Nat.add_mod_right, h]
    rw [writeEach, List.foldl_cons, he, ← writeEach, ih _ hnext, CdrWriter.writeBytes_writeBytes,
      List.flatMap_cons]

/-- With at least one element, one aligned copy is the whole loop. -/
theorem writeEach_prim (p : Prim) (f : List p.Val) (hf : f ≠ []) (w : CdrWriter) :
    writeEach (CdrWriter.writePrim p) f w = w.writeAligned (f.flatMap p.toBytes) p.sizeof := by
  obtain ⟨e, f, rfl⟩ := List.exists_cons_of_ne_nil hf
  have hfirst : CdrWriter.writePrim p e w = CdrWriter.writePrim p e (w.alignTo p.sizeof) := by
    simp only [CdrWriter.writePrim_eq_writeScalar, CdrWriter.writeScalar, CdrWriter.writeAligned,
      w.alignTo_alignTo p.sizeof_pos]
  have halign := writeEach_aligned p (e :: f) (w.alignTo p.sizeof) (w.alignTo_aligned p.sizeof_pos)
  rw [writeEach, List.foldl_cons] at halign ⊢
  rw [hfirst, halign, CdrWriter.writeAligned]

theorem serializePrimSeq_eq_loop (p : Prim) (f : List p.Val) (w : CdrWriter) :
    serializePrimSeq p f w = writeEach (CdrWriter.writePrim p) f w := by
  unfold serializePrimSeq
  split_ifs with hb he
  · rfl
  · rw [List.isEmpty_iff.mp he]
    rfl
  · exact (writeEach_prim p f (fun h => he (List.isEmpty_iff.mpr h)) w).symm

theorem serializePrimArray_eq_loop (p : Prim) (f : List p.Val) (hf : f ≠ []) (w : CdrWriter) :
    serializePrimArray p f w = writeEach (CdrWriter.writePrim p) f w := by
  rw [writeEach_prim p f hf, serializePrimArray, p.align_eq_sizeof]
  rfl

end Write

section Read

/-- The objects laid out in the next `n * sizeof` bytes, when the buffer has
them. -/
def CdrReader.objectsAt (p : Prim) (n : ℕ) (r : CdrReader) : Option (List p.Val × CdrReader) :=
  if r.pos + n*p.sizeof ≤ r.buf.length then
    some ((LittleEndian.blocks p.sizeof n (r.buf.drop r.pos)).map p.ofBytes,
      { r with pos := r.pos + n*p.sizeof })
  else none

/-- Where the element alignment of the reader has nothing to skip. -/
structure CdrReader.Aligned (p : Prim) (r : CdrReader) : Prop where
  offset_mod : r.payloadOffset % p.sizeof = 0
  pos_le : r.pos ≤ r.buf.length
  size_lt : r.buf.length < 2^64

/-- No operation changes the buffer. -/
theorem readStep_buf {g : Bool} {o : ReadOp} {r s : CdrReader} {x : readSig.Reply o}
    (h : readStep g o r = .ok (x, s)) : s.buf = r.buf := by
  cases o with
  | alignTo n =>
    change r.alignTo n = .ok (x, s) at h
    unfold CdrReader.alignTo at h
    dsimp only at h
    split_ifs at h
    rw [← (Prod.mk.inj (Except.ok.inj h)).2]
  | readBytes count elem =>
    change r.readBytes (sizeT (count*elem)) = .ok (x, s) at h
    unfold CdrReader.readBytes CdrReader.copy at h
    split_ifs at h
    · rw [← (Prod.mk.inj (Except.ok.inj h)).2]
    · cases h
  | readChars len =>
    change r.readChars len = .ok (x, s) at h
    unfold CdrReader.readChars CdrReader.copy at h
    split_ifs at h
    · rw [← (Prod.mk.inj (Except.ok.inj h)).2]
    · cases h
  | guardRemaining n =>
    cases g with
    | false => rw [← (Prod.mk.inj (Except.ok.inj h)).2]
    | true =>
      change r.guardRemaining n = .ok (x, s) at h
      unfold CdrReader.guardRemaining at h
      split_ifs at h
      rw [← (Prod.mk.inj (Except.ok.inj h)).2]

theorem run_buf {α : Type} {g : Bool} {p : Decoder α} {r s : CdrReader} {a : α}
    (h : p.run (readStep g) r = .ok (a, s)) : s.buf = r.buf :=
  Prog.run_invariant (readStep g) (fun s => s.buf = r.buf)
    (fun _ _ _ _ _ hs hok => (readStep_buf hok).trans hs) p p.uses_trivial rfl h

theorem CdrReader.readBytes_toOption {r : CdrReader} (hb : r.buf.length < 2^64) (n : ℕ) :
    (r.readBytes n).toOption =
      if r.pos + n ≤ r.buf.length then
        some ((r.buf.drop r.pos).take n, { r with pos := r.pos + n })
      else none := by
  unfold CdrReader.readBytes CdrReader.copy
  by_cases hin : r.pos + n ≤ r.buf.length
  · rw [if_pos hin, if_pos hin, sizeT_of_lt (by omega), if_neg (by omega)]
    rfl
  · rw [if_neg hin, if_neg hin]
    split_ifs <;> rfl

theorem payloadOffset_mod (p : Prim) (r : CdrReader) :
    r.payloadOffset % p.sizeof = (r.pos + 2^64 - 4) % p.sizeof := by
  unfold CdrReader.payloadOffset sizeT
  rcases p.sizeof_cases with h | h | h | h <;> rw [h] <;> omega

/-- Behind a successful `align_to` the reader is aligned. -/
theorem alignTo_aligned (p : Prim) {r s : CdrReader} (hb : r.buf.length < 2^64)
    (h : r.alignTo p.sizeof = .ok ((), s)) : s.Aligned p ∧ s.buf = r.buf := by
  unfold CdrReader.alignTo at h
  dsimp only at h
  split_ifs at h with hc
  obtain rfl := (Prod.mk.inj (Except.ok.inj h)).2
  refine ⟨⟨?_, not_lt.mp hc, hb⟩, rfl⟩
  have hpad := padding_aligned p.sizeof r.payloadOffset p.sizeof_pos
  rw [Nat.add_mod, payloadOffset_mod] at hpad
  rw [payloadOffset_mod]
  -- every element size divides `2^64`, so a position that wrapped stays aligned
  change ((r.pos + padding p.sizeof r.payloadOffset) % 2^64 + 2^64 - 4) % p.sizeof = 0
  generalize padding p.sizeof r.payloadOffset = pad at hpad ⊢
  rcases p.sizeof_cases with h | h | h | h <;> rw [h] at hpad ⊢ <;> omega

namespace CdrReader.Aligned
variable {p : Prim} {r : CdrReader} (hr : r.Aligned p)
include hr

theorem alignTo_eq : r.alignTo p.sizeof = .ok ((), r) := by
  have hle := hr.pos_le
  have hlt := hr.size_lt
  simp only [CdrReader.alignTo, padding_eq_zero _ _ hr.offset_mod, Nat.add_zero,
    sizeT_of_lt (show r.pos < 2^64 by omega)]
  rw [if_neg (by omega)]

theorem advance (hin : r.pos + p.sizeof ≤ r.buf.length) :
    CdrReader.Aligned p { r with pos := r.pos + p.sizeof } := by
  refine ⟨?_, hin, hr.size_lt⟩
  have hmod := hr.offset_mod
  rw [payloadOffset_mod] at hmod ⊢
  rw [show r.pos + p.sizeof + 2^64 - 4 = (r.pos + 2^64 - 4) + p.sizeof by omega, Nat.add_mod_right, hmod]

theorem readPrim_toOption (g : Bool) :
    ((Decoder.readPrim p).run (readStep g) r).toOption =
      if r.pos + p.sizeof ≤ r.buf.length then
        some (p.ofBytes ((r.buf.drop r.pos).take p.sizeof), { r with pos := r.pos + p.sizeof })
      else none := by
  have hsize : sizeT (1*p.sizeof) = p.sizeof := by
    have := p.sizeof_le
    rw [Nat.one_mul, sizeT_of_lt (by omega)]
  rw [Decoder.readPrim_eq_readAligned, Decoder.readAligned, Prog.bind_eq, Prog.toOption_run_bind,
    Decoder.run_alignTo, hr.alignTo_eq]
  change ((Decoder.readBytes 1 p.sizeof).bind _ |>.run (readStep g) r).toOption = _
  rw [Prog.toOption_run_bind, Decoder.run_readBytes, hsize, CdrReader.readBytes_toOption hr.size_lt]
  split_ifs <;> rfl

/-- From an aligned position the element loop reads the objects back to back. -/
theorem readEach_toOption (g : Bool) (n : ℕ) :
    (((Decoder.readPrim p).times n).run (readStep g) r).toOption = r.objectsAt p n := by
  induction n generalizing r with
  | zero =>
    rw [CdrReader.objectsAt, Nat.zero_mul, Nat.add_zero, if_pos hr.pos_le]
    rfl
  | succ n ih =>
    have hsum : r.pos + (n + 1)*p.sizeof = r.pos + p.sizeof + n*p.sizeof := by ring
    rw [Prog.times, Prog.toOption_run_bind, hr.readPrim_toOption g, CdrReader.objectsAt, hsum]
    by_cases hin : r.pos + p.sizeof ≤ r.buf.length
    · rw [if_pos hin, Option.bind_some, Prog.toOption_run_bind, ih (hr.advance hin),
        CdrReader.objectsAt, LittleEndian.blocks, List.drop_drop]
      split_ifs <;> rfl
    · rw [if_neg hin, Option.bind_none, if_neg (by omega)]

/-- One bulk copy from there finds the same objects. -/
theorem readBulk_toOption (g : Bool) (n : ℕ) (hn : n*p.sizeof < 2^64) :
    ((Decoder.readBytes n p.sizeof).run (readStep g) r).toOption.map
      (fun x => ((ofBlocks p n x.1).toList, x.2)) = r.objectsAt p n := by
  rw [Decoder.run_readBytes, sizeT_of_lt hn, CdrReader.readBytes_toOption hr.size_lt, CdrReader.objectsAt]
  split_ifs
  · rw [Option.map_some, ofBlocks, List.Vector.toList_mk, LittleEndian.blocks_take]
  · rfl

end CdrReader.Aligned

section Paths
variable {r : CdrReader} (hb : r.buf.length < 2^64)
include hb

/-- The first element does the aligning of the whole loop. -/
theorem readEach_alignTo (g : Bool) (p : Prim) {n : ℕ} (hn : 1 ≤ n) :
    (((Decoder.readPrim p).times n).run (readStep g) r).toOption =
      (r.alignTo p.sizeof).toOption.bind (fun x => x.2.objectsAt p n) := by
  obtain ⟨m, rfl⟩ := Nat.exists_eq_add_of_le' hn
  cases halign : r.alignTo p.sizeof with
  | error e =>
    rw [Prog.times, Prog.toOption_run_bind, Decoder.readPrim_eq_readAligned, Decoder.readAligned,
      Prog.bind_eq, Prog.toOption_run_bind, Decoder.run_alignTo, halign]
    rfl
  | ok x =>
    obtain ⟨⟨⟩, s⟩ := x
    obtain ⟨hs, -⟩ := alignTo_aligned p hb halign
    have hfirst : ((Decoder.readPrim p).run (readStep g) r).toOption =
        ((Decoder.readPrim p).run (readStep g) s).toOption := by
      rw [Decoder.readPrim_eq_readAligned, Decoder.readAligned, Prog.bind_eq, Prog.toOption_run_bind,
        Prog.toOption_run_bind, Decoder.run_alignTo, Decoder.run_alignTo, halign, hs.alignTo_eq]
    have hloop := hs.readEach_toOption g (m + 1)
    rw [Prog.times, Prog.toOption_run_bind] at hloop ⊢
    rw [hfirst, hloop]
    rfl

theorem deserializePrimArray_toOption (g : Bool) (p : Prim) (n : ℕ) (hn : n*p.sizeof < 2^64) :
    ((deserializePrimArray p n).run (readStep g) r).toOption.map (fun x => (x.1.toList, x.2)) =
      (r.alignTo p.sizeof).toOption.bind (fun x => x.2.objectsAt p n) := by
  rw [deserializePrimArray, Prog.bind_eq, Prog.toOption_run_bind, Decoder.run_alignTo, p.align_eq_sizeof]
  cases halign : r.alignTo p.sizeof with
  | error e => rfl
  | ok x =>
    obtain ⟨⟨⟩, s⟩ := x
    obtain ⟨hs, -⟩ := alignTo_aligned p hb halign
    have hbulk := hs.readBulk_toOption g n hn
    change (((Decoder.readBytes n p.sizeof).bind _).run (readStep g) s).toOption.map _ = s.objectsAt p n
    rw [Prog.toOption_run_bind, ← hbulk]
    cases (Decoder.readBytes n p.sizeof).run (readStep g) s with
    | error e => rfl
    | ok y => rfl

/-- Bulk and loop over the elements of a sequence of known length. -/
theorem deserializePrimSeq_toOption (g : Bool) (p : Prim) (n : ℕ) (hn : n < 2^32) :
    ((deserializePrimSeq p n).run (readStep g) r).toOption =
      (((Decoder.readPrim p).times n).run (readStep g) r).toOption := by
  have hle : n*p.sizeof ≤ n*8 := Nat.mul_le_mul_left n p.sizeof_le
  have hbytes : n*p.sizeof < 2^64 := by omega
  unfold deserializePrimSeq
  split_ifs with hbool hzero
  · rfl
  · have hseq : (do
          Decoder.alignTo p.align
          let bs ← Decoder.readBytes n p.sizeof
          pure (ofBlocks p n bs).toList : Decoder (List p.Val)) =
        (deserializePrimArray p n).bind (fun v => .done v.toList) := rfl
    rw [readEach_alignTo hb g p (by omega), ← deserializePrimArray_toOption hb g p n hbytes, hseq,
      Prog.toOption_run_bind]
    cases (deserializePrimArray p n).run (readStep g) r with
    | error e => rfl
    | ok x => rfl
  · rw [not_not.mp hzero]
    rfl

end Paths

end Read

/-- Generated code that copies a whole `T[]` or `T[N]` writes what the loop of
`write_T` writes and reads what the loop of `read_T` reads, from every offset
and out of every buffer. The writers agree as states, hence under any write
that follows. -/
theorem bulk_copy_eq_element_loop (p : Prim) :
    (∀ (f : List p.Val) (w : CdrWriter),
      emitSerialize (.prim p) (CdrWriter.writePrim p) .seq f w =
          writeEach (CdrWriter.writePrim p) f (w.writeUint32 (BitVec.ofNat 32 f.length)) ∧
        emitSerialize (.prim p) (CdrWriter.writePrim p) .seq f w =
          writeSequence f (CdrWriter.writePrim p) w) ∧
    (∀ (n : ℕ) (f : List.Vector p.Val n) (w : CdrWriter), 1 ≤ n →
      emitSerialize (.prim p) (CdrWriter.writePrim p) (.array n) f w =
        writeEach (CdrWriter.writePrim p) f.toList w) ∧
    (∀ (g : Bool) (old : List p.Val) (r : CdrReader), r.buf.length < 2^64 →
      ((emitDeserialize (.prim p) (fun _ => Decoder.readPrim p) .seq old).run (readStep g) r).toOption =
        ((readSequence p.zero (fun _ => Decoder.readPrim p)).run (readStep g) r).toOption) ∧
    ∀ (g : Bool) (n : ℕ) (old : List.Vector p.Val n) (r : CdrReader), 1 ≤ n → n*p.sizeof < 2^64 →
      r.buf.length < 2^64 →
      ((emitDeserialize (.prim p) (fun _ => Decoder.readPrim p) (.array n) old).run (readStep g) r).toOption =
        ((Prog.forVec (fun _ => Decoder.readPrim p) old).run (readStep g) r).toOption := by
  refine ⟨fun f w => ?_, fun n f w hn => ?_, fun g old r hb => ?_, fun g n old r hn hsize hb => ?_⟩
  · have hloop : emitSerialize (.prim p) (CdrWriter.writePrim p) .seq f w =
        writeSequence f (CdrWriter.writePrim p) w := serializePrimSeq_eq_loop p f _
    refine ⟨?_, hloop⟩
    rw [hloop, writeSequence, writeUint32_alignTo]
  · refine serializePrimArray_eq_loop p f.toList (fun h => ?_) w
    have hlen := congrArg List.length h
    rw [List.Vector.toList_length, List.length_nil] at hlen
    omega
  · refine Prog.toOption_run_bind_congr (readStep g) (Decoder.alignTo 4) (fun _ r₁ h₁ => ?_)
    refine Prog.toOption_run_bind_congr (readStep g) Decoder.readUint32 (fun n r₂ h₂ => ?_)
    refine Prog.toOption_run_bind_congr (readStep g) (Decoder.guardRemaining n.toNat) (fun _ r₃ h₃ => ?_)
    have hbuf : r₃.buf = r.buf := by
      calc
        r₃.buf = r₂.buf := run_buf h₃
        _ = r₁.buf := run_buf h₂
        _ = r.buf := run_buf h₁
    exact deserializePrimSeq_toOption (hbuf ▸ hb) g p n.toNat n.isLt
  · have hbulk := deserializePrimArray_toOption hb g p n hsize
    rw [← readEach_alignTo hb g p hn, ← Prog.toOption_run_forVec _ _ old] at hbulk
    refine Option.map_injective ?_ hbulk
    intro x y hxy
    obtain ⟨hlist, hreader⟩ := Prod.mk.inj hxy
    exact Prod.ext (List.Vector.toList_injective hlist) hreader

/-- Two `uint16` objects, 5 and 6, behind the encapsulation header. -/
def twoUint16 : CdrReader := ⟨[0, 1, 0, 0, 5, 0, 6, 0], 4⟩

theorem bulk_copy_eq_element_loop_uint16 :
    ((emitDeserialize (.prim .uint16) (fun _ => Decoder.readPrim .uint16) (.array 2)
        (List.Vector.replicate 2 (0#16 : Prim.Val .uint16))).run (readStep true) twoUint16).toOption =
      ((Prog.forVec (fun _ => Decoder.readPrim .uint16)
        (List.Vector.replicate 2 (0#16 : Prim.Val .uint16))).run (readStep true) twoUint16).toOption :=
  (bulk_copy_eq_element_loop .uint16).2.2.2 true 2 _ twoUint16 (by decide) (by decide) (by decide)

end Rcllite
