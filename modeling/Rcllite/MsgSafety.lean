import Rcllite.CdrSafety

/-! What emitted `deserialize` code does on arbitrary bytes: the reader lemmas
lifted to every schema, and the two-run facts about prefixes and extensions. -/
namespace Rcllite
open Interaction

mutual

def RosType.ArraysBelow (bound : ℕ) : RosType → Prop
  | .nested _ _ ms => ms.ArraysBelow bound
  | _ => True

/-- Every fixed array of primitives occupies less than `bound` bytes. -/
def Members.ArraysBelow (bound : ℕ) : Members → Prop
  | .nil => True
  | .cons _ shape t rest =>
    (∀ n p, shape = .array n → t = .prim p → n*p.sizeof < bound) ∧
      t.ArraysBelow bound ∧ rest.ArraysBelow bound

end

/-- Neither the emitted code nor the reader ever gives up by leaving the
buffer. -/
def Failure.Clean (e : Failure) : Prop := e ≠ .outOfBounds

namespace Decoder

abbrev Modest {α : Type} (p : Decoder α) : Prop := p.Uses ReadOp.Small Failure.Clean

theorem alignTo_modest {n : ℕ} (hn : 0 < n ∧ n ≤ 8) : (alignTo n).Modest :=
  Prog.uses_op (S := readSig) hn

theorem readBytes_modest {count elem : ℕ} (h : count*elem < 2^62) : (readBytes count elem).Modest :=
  Prog.uses_op (S := readSig) h

theorem readChars_modest {len : ℕ} (h : len < 2^32) : (readChars len).Modest :=
  Prog.uses_op (S := readSig) h

theorem guardRemaining_modest {n : ℕ} (h : n < 2^32) : (guardRemaining n).Modest :=
  Prog.uses_op (S := readSig) h

theorem align_range (p : Prim) : 0 < p.align ∧ p.align ≤ 8 := by
  rw [p.align_eq_sizeof]
  exact ⟨p.sizeof_pos, p.sizeof_le⟩

theorem readAligned_modest (p : Prim) : (readAligned p).Modest := by
  have := p.sizeof_le
  exact Prog.uses_bind (alignTo_modest ⟨p.sizeof_pos, p.sizeof_le⟩) (fun _ =>
    Prog.uses_bind (readBytes_modest (by omega)) (fun _ => trivial))

theorem readPrim_modest (p : Prim) : (readPrim p).Modest := by
  rw [readPrim_eq_readAligned]
  exact readAligned_modest p

theorem readUint32_modest : readUint32.Modest := readAligned_modest .uint32

theorem readString_modest : readString.Modest :=
  Prog.uses_bind readUint32_modest (fun len => readChars_modest len.isLt)

theorem primSeq_modest (p : Prim) {n : ℕ} (hn : n < 2^32) : (deserializePrimSeq p n).Modest := by
  have hp : n*p.sizeof ≤ n*8 := Nat.mul_le_mul_left n p.sizeof_le
  have hsize : n*p.sizeof < 2^62 := by omega
  unfold deserializePrimSeq
  split_ifs
  · exact Prog.uses_times (readPrim_modest p) n
  · exact Prog.uses_bind (alignTo_modest (align_range p)) (fun _ =>
      Prog.uses_bind (readBytes_modest hsize) (fun _ => trivial))
  · trivial

theorem primArray_modest (p : Prim) {n : ℕ} (hn : n*p.sizeof < 2^62) : (deserializePrimArray p n).Modest :=
  Prog.uses_bind (alignTo_modest (align_range p)) (fun _ =>
    Prog.uses_bind (readBytes_modest hn) (fun _ => trivial))

variable {t : RosType} {des : t.Val → Decoder t.Val}

theorem seqBody_modest (hdes : ∀ old, (des old).Modest) (fresh : t.Val) {n : ℕ} (hn : n < 2^32) :
    (deserializeSeqBody t des fresh n).Modest := by
  cases t with
  | prim p => exact primSeq_modest p hn
  | string => exact Prog.uses_times (hdes fresh) n
  | nested package name ms => exact Prog.uses_times (hdes fresh) n

theorem emit_modest (hdes : ∀ old, (des old).Modest) (shape : Shape)
    (hsize : ∀ n p, shape = .array n → t = .prim p → n*p.sizeof < 2^62) (old : shape.Val t.Val) :
    (emitDeserialize t des shape old).Modest := by
  cases shape with
  | scalar => exact hdes old
  | seq =>
    exact Prog.uses_bind (alignTo_modest (by decide)) (fun _ =>
      Prog.uses_bind readUint32_modest (fun n =>
        Prog.uses_bind (guardRemaining_modest n.isLt) (fun _ => seqBody_modest hdes t.zero n.isLt)))
  | array n =>
    cases t with
    | prim p => exact primArray_modest p (hsize n p rfl rfl)
    | string => exact Prog.uses_forVec hdes old
    | nested package name ms => exact Prog.uses_forVec hdes old

end Decoder

mutual

theorem RosType.deserialize_modest (t : RosType) (h : t.ArraysBelow (2^62)) (old : t.Val) :
    (t.deserialize old).Modest := by
  cases t with
  | prim p => exact Decoder.readPrim_modest p
  | string => exact Decoder.readString_modest
  | nested package name ms => exact Members.deserialize_modest ms h old

/-- Emitted code requests only small sizes, whatever bytes it has read. -/
theorem Members.deserialize_modest (ms : Members) (h : ms.ArraysBelow (2^62)) (old : ms.Val) :
    (ms.deserialize old).Modest := by
  cases ms with
  | nil => trivial
  | cons name shape t rest =>
    exact Prog.uses_bind (Decoder.emit_modest (fun o => RosType.deserialize_modest t h.2.1 o) shape h.1 old.1)
      (fun _ => Prog.uses_bind (Members.deserialize_modest rest h.2.2 old.2) (fun _ => trivial))

end

theorem readStep_unguarded (o : ReadOp) (r : CdrReader) (x : readSig.Reply o) (r' : CdrReader)
    (h : readStep true o r = .ok (x, r')) : readStep false o r = .ok (x, r') := by
  cases o with
  | alignTo n => exact h
  | readBytes count elem => exact h
  | readChars len => exact h
  | guardRemaining n =>
    have h : r.guardRemaining n = .ok (x, r') := h
    unfold CdrReader.guardRemaining at h
    split_ifs at h
    exact h

/-- Small steps do not leave the buffer. -/
theorem run_clean {α : Type} {p : Decoder α} (hp : p.Modest) (g : Bool) {r : CdrReader} (hr : r.Inside)
    (hb : r.buf.length < 2^63) {e : Failure} (he : p.run (readStep g) r = .error e) : e.Clean := by
  refine Prog.run_error (readStep g) (fun s => s.Inside ∧ s.buf = r.buf) ?_ _ hp r ⟨hr, rfl⟩ e he
  rintro o s ho ⟨hs, hsb⟩
  have hstep := CdrReader.Safe.readStep hs (hsb ▸ hb) g o ho
  generalize readStep g o s = res at hstep
  cases hstep with
  | ok x s' hbuf hin hle => exact ⟨hin, hbuf.trans hsb⟩
  | returnFalse => exact nofun
  | error message => exact nofun

/-- A small step stays in the buffer and does not go back. -/
theorem readStep_inside {r s s' : CdrReader} (hb : r.buf.length < 2^63) {o : ReadOp} (ho : o.Small)
    (hs : s.buf = r.buf ∧ s.Inside) {x : readSig.Reply o} (hok : readStep true o s = .ok (x, s')) :
    (s'.buf = r.buf ∧ s'.Inside) ∧ s.pos ≤ s'.pos := by
  have hstep := CdrReader.Safe.readStep hs.2 (hs.1 ▸ hb) true o ho
  rw [hok] at hstep
  cases hstep with
  | ok x s' hbuf hin hle => exact ⟨⟨hbuf.trans hs.1, hin⟩, hle⟩

section Runs
variable (ms : Members) (harr : ms.ArraysBelow (2^62)) (old : ms.Val)
include harr

/-- No run leaves the buffer: the outcome is acceptance, `false` or an
`rcl::Error`. -/
theorem decodeInto_clean (b : List UInt8) (hb : b.length < 2^63) :
    ms.decodeInto true old b ≠ .error .outOfBounds := by
  intro h
  unfold Members.decodeInto at h
  cases hn : CdrReader.new b with
  | error e =>
    rw [hn] at h
    have he : e = Failure.outOfBounds := Except.error.inj h
    exact new_clean b (he ▸ hn)
  | ok r =>
    rw [hn] at h
    obtain ⟨hr, rfl⟩ := new_inside hn
    exact run_clean (ms.deserialize_modest harr old) true hr hb h rfl

theorem states_inside (r : CdrReader) (hr : r.Inside) (hb : r.buf.length < 2^63) :
    ∀ s ∈ (ms.deserialize old).states (readStep true) r, s.buf = r.buf ∧ s.Inside := by
  refine Prog.states_invariant (readStep true) (fun s => s.buf = r.buf ∧ s.Inside) ?_ _
    (ms.deserialize_modest harr old) r ⟨rfl, hr⟩
  intro o s x s' ho hs hok
  exact (readStep_inside hb ho hs hok).1

theorem states_monotone (r : CdrReader) (hr : r.Inside) (hb : r.buf.length < 2^63) :
    ((ms.deserialize old).states (readStep true) r).IsChain (fun s s' => s.pos ≤ s'.pos) := by
  refine Prog.states_chain (readStep true) (fun s => s.buf = r.buf ∧ s.Inside) _ ?_ _
    (ms.deserialize_modest harr old) r ⟨rfl, hr⟩
  intro o s x s' ho hs hok
  exact readStep_inside hb ho hs hok

/-- What is accepted stays accepted, with the same value and final position,
however the buffer goes on. -/
theorem decodeInto_append (g : Bool) (b t : List UInt8) (hb : (b ++ t).length < 2^62) (v : ms.Val) (r : CdrReader)
    (h : ms.decodeInto g old b = .ok (v, r)) :
    ms.decodeInto g old (b ++ t) = .ok (v, ⟨b ++ t, r.pos⟩) ∧ r.pos ≤ b.length := by
  unfold Members.decodeInto at h ⊢
  cases hn : CdrReader.new b with
  | error e => simp [hn] at h
  | ok s =>
    rw [hn] at h
    rw [new_append hn t]
    obtain ⟨hin, rfl⟩ := new_inside hn
    have hext : CdrReader.Extends b t ⟨b, 4⟩ ⟨b ++ t, 4⟩ := ⟨hin, rfl, rfl, rfl, hb⟩
    obtain ⟨⟨buf', pos'⟩, hs', he⟩ := Prog.run_simulation (readStep g) (readStep g)
      (CdrReader.Extends b t) (fun o s s' x u ho he hok => he.step g o ho x u hok) _
      (ms.deserialize_modest harr old) _ _ hext v r h
    obtain rfl : buf' = b ++ t := he.target
    obtain rfl : pos' = r.pos := he.pos_eq
    exact ⟨hs', he.source ▸ he.inside.2⟩

/-- Dropping the length guards only makes the decoder accept more. -/
theorem decodeInto_unguarded (b : List UInt8) (v : ms.Val) (r : CdrReader)
    (h : ms.decodeInto true old b = .ok (v, r)) : ms.decodeInto false old b = .ok (v, r) := by
  unfold Members.decodeInto at h ⊢
  cases hn : CdrReader.new b with
  | error e => simp [hn] at h
  | ok s =>
    rw [hn] at h
    obtain ⟨r', hr', rfl⟩ := Prog.run_simulation (readStep true) (readStep false) Eq
      (fun o s s' x u _ hs hok => ⟨u, hs ▸ readStep_unguarded o s x u hok, rfl⟩) _
      (ms.deserialize_modest harr old) _ _ rfl v r h
    exact hr'

end Runs

section Prefix
variable {ms : Members} {v : ms.Val} (hv : ms.Fits (fun s => s.length < 2^32) v)
include hv

/-- The unguarded decoder, run on the encoding of `v`, stops at its last byte or
fails; a string whose length field wrapped makes it fail. -/
theorem decodeInto_encode (old : ms.Val) (hlen : (ms.encode v).length < 2^64) :
    ms.decodeInto false old (ms.encode v) = .ok (v, ⟨ms.encode v, (ms.encode v).length⟩) ∨
      ∃ e, ms.decodeInto false old (ms.encode v) = .error e := by
  have hstr : ∀ s : List UInt8, s.length < 2^32 →
      ReadsBack false (fun _ => True) Decoder.readString s (CdrWriter.writeString s) := by
    intro s hs
    by_cases hfit : s.length + 1 < 2^32
    · exact ReadsBack.readString s hfit
    · intro w
      obtain ⟨out, hout, hrun⟩ := readString_wrapped false s (by omega) w
      exact ⟨out, hout, fun r hr => Or.inr ⟨_, trivial, hrun r hr⟩⟩
  obtain ⟨out, hout, hrun⟩ := Members.reads_back hstr ms nofun v hv old CdrWriter.new
  have henc : ms.encode v = CdrWriter.new.buf ++ out := hout
  rw [henc] at hlen ⊢
  have hr : StandsBefore ⟨CdrWriter.new.buf ++ out, 4⟩ CdrWriter.new out :=
    ⟨rfl, by simp [CdrWriter.new], ⟨[], by simp [CdrWriter.new]⟩, hlen⟩
  rw [Members.decodeInto, new_header]
  rcases hrun _ hr with hok | ⟨e, -, he⟩
  · left
    rw [List.length_append]
    exact hok
  · exact Or.inr ⟨e, he⟩

/-- No strict prefix of an encoding is accepted: it would be accepted without
the guards too, hence in front of the missing bytes, and stop too early. -/
theorem decodeInto_prefix (harr : ms.ArraysBelow (2^62)) (old : ms.Val) (hlen : (ms.encode v).length < 2^62)
    (b : List UInt8) (hpre : b <+: ms.encode v) (hne : b ≠ ms.encode v) (res : ms.Val × CdrReader) :
    ms.decodeInto true old b ≠ .ok res := by
  intro hok
  obtain ⟨u, r⟩ := res
  obtain ⟨t, ht⟩ := hpre
  have hshort : b.length < (ms.encode v).length := by
    refine lt_of_le_of_ne (ht ▸ by simp) (fun h => hne ?_)
    exact List.IsPrefix.eq_of_length ⟨t, ht⟩ h
  obtain ⟨happ, hpos⟩ := decodeInto_append ms harr old false b t (ht ▸ hlen) u r
    (decodeInto_unguarded ms harr old b u r hok)
  rw [ht] at happ
  rcases decodeInto_encode hv old (by omega) with hfull | ⟨e, he⟩
  · rw [hfull] at happ
    have hend : (ms.encode v).length = r.pos := congrArg (fun x => x.2.pos) (Except.ok.inj happ)
    omega
  · rw [he] at happ
    cases happ

end Prefix

/-- Decoding arbitrary bytes is memory safe, needs no byte beyond the position
it reports, and never takes a truncated message for a whole one. -/
theorem generated_decoding_safe (ms : Members) (harr : ms.ArraysBelow (2^62)) (old : ms.Val)
    (b : List UInt8) (hb : b.length < 2^62) :
    ms.decodeInto true old b ≠ .error .outOfBounds ∧
    (∀ r, CdrReader.new b = .ok r →
      (∀ s ∈ (ms.deserialize old).states (readStep true) r, s.buf = b ∧ 4 ≤ s.pos ∧ s.pos ≤ b.length) ∧
      ((ms.deserialize old).states (readStep true) r).IsChain (fun s s' => s.pos ≤ s'.pos) ∧
      ∀ c ∈ (ms.deserialize old).calls (readStep true) r,
        c.1.NoWrap c.2 ∧ ∀ i, c.1.ReadsByte c.2 i → i < b.length) ∧
    (∀ v r t, (b ++ t).length < 2^62 → ms.decodeInto true old b = .ok (v, r) →
      ms.decodeInto true old (b ++ t) = .ok (v, ⟨b ++ t, r.pos⟩)) ∧
    ∀ v : ms.Val, ms.Fits (fun s => s.length < 2^32) v → (ms.encode v).length < 2^62 →
      b <+: ms.encode v → b ≠ ms.encode v → ∀ res, ms.decodeInto true old b ≠ .ok res := by
  have hb' : b.length < 2^63 := hb.trans (by decide)
  refine ⟨decodeInto_clean ms harr old b hb', ?_, ?_, ?_⟩
  · intro r hr
    obtain ⟨hin, rfl⟩ := new_inside hr
    have hstates : ∀ s ∈ (ms.deserialize old).states (readStep true) ⟨b, 4⟩, s.buf = b ∧ s.Inside :=
      states_inside ms harr old ⟨b, 4⟩ hin hb'
    refine ⟨fun s hs => ⟨(hstates s hs).1, (hstates s hs).2.1, (hstates s hs).1 ▸ (hstates s hs).2.2⟩,
      states_monotone ms harr old ⟨b, 4⟩ hin hb', ?_⟩
    intro c hc
    obtain ⟨hbuf, hs⟩ := hstates c.2 (Prog.state_mem_of_mem_calls _ _ _ c hc)
    have hsmall := Prog.calls_uses (readStep true) (ms.deserialize_modest harr old) ⟨b, 4⟩ c hc
    have hlen : c.2.buf.length < 2^63 := hbuf ▸ hb'
    exact ⟨ReadOp.noWrap hs hlen c.1 hsmall,
      fun i hi => hbuf ▸ ReadOp.readsByte_lt hs hlen c.1 hsmall i hi⟩
  · intro v r t ht hok
    exact (decodeInto_append ms harr old true b t ht v r hok).1
  · intro v hv hlen hpre hne
    exact decodeInto_prefix hv harr old hlen b hpre hne

theorem generated_decoding_safe_string :
    stringSchema.decodeInto true ([], ()) [0, 1, 0, 0, 3, 0, 0, 0, 0x48] ≠ .error .outOfBounds :=
  (generated_decoding_safe stringSchema ⟨nofun, trivial, trivial⟩ ([], ())
    [0, 1, 0, 0, 3, 0, 0, 0, 0x48] (by decide)).1

/-- A message with one `uint8[]`. -/
def byteSeqSchema : Members := .cons "data" .seq (.prim .uint8) .nil

def byteSeqSchema.value (l : List (Prim.Val .uint8)) : byteSeqSchema.Val := (l, ())

theorem byteSeqSchema.encode_eq (l : List (Prim.Val .uint8)) :
    byteSeqSchema.encode (byteSeqSchema.value l) =
      (serializePrimSeq .uint8 l ((CdrWriter.new.alignTo 4).writeUint32 (BitVec.ofNat 32 l.length))).buf :=
  rfl

/-- A sequence of `2^32` elements is announced as empty, so the eight bytes up
to its first element are a message of their own. -/
theorem wrapped_sequence_encode (l : List (Prim.Val .uint8)) (hl : l.length = 2^32) :
    byteSeqSchema.encode (byteSeqSchema.value l) =
      [0, 1, 0, 0, 0, 0, 0, 0] ++ l.flatMap (Prim.toBytes .uint8) := by
  have hlen : BitVec.ofNat 32 l.length = 0#32 := by
    rw [hl]
    rfl
  have hne : ¬ l.isEmpty = true := by
    intro h
    rw [List.isEmpty_iff.mp h] at hl
    cases hl
  have hbulk (w : CdrWriter) : (serializePrimSeq .uint8 l w).buf = w.buf ++ l.flatMap (Prim.toBytes .uint8) := by
    unfold serializePrimSeq
    rw [if_neg nofun, if_neg hne, CdrWriter.writeAligned_buf]
    exact congrArg (fun k => w.buf ++ (List.replicate k 0 ++ _)) (padding_one w.payloadOffset)
  rw [byteSeqSchema.encode_eq, hbulk, hlen]
  rfl

/-- `2^32` zero bytes. -/
def byteSeqSchema.zeros : byteSeqSchema.Val :=
  byteSeqSchema.value (List.replicate (2^32) (Prim.zero .uint8))

theorem wrapped_sequence_prefix_accepted :
    [0, 1, 0, 0, 0, 0, 0, 0] <+: byteSeqSchema.encode byteSeqSchema.zeros ∧
    [0, 1, 0, 0, 0, 0, 0, 0] ≠ byteSeqSchema.encode byteSeqSchema.zeros ∧
    (byteSeqSchema.encode byteSeqSchema.zeros).length < 2^62 ∧
    byteSeqSchema.decodeInto true (byteSeqSchema.value []) [0, 1, 0, 0, 0, 0, 0, 0] =
      .ok (byteSeqSchema.value [], ⟨[0, 1, 0, 0, 0, 0, 0, 0], 8⟩) := by
  have henc : byteSeqSchema.encode byteSeqSchema.zeros = _ :=
    wrapped_sequence_encode _ List.length_replicate
  have hlen : (byteSeqSchema.encode byteSeqSchema.zeros).length = 8 + 2^32 := by
    rw [henc, List.length_append,
      LittleEndian.flatMap_length _ (Prim.sizeof .uint8) (Prim.toBytes_length .uint8),
      List.length_replicate]
    rfl
  refine ⟨⟨_, henc.symm⟩, ?_, ?_, rfl⟩
  · intro h
    rw [← h] at hlen
    exact absurd hlen (by decide)
  · rw [hlen]
    decide

end Rcllite
