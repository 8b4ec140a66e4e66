import Rcllite.MsgCodegen

/-! Reading back what was written, at any offset. The relation is stated for a
reader that stands where the writer stood, so it composes along a stream. -/
namespace Rcllite
open Interaction

variable {α β : Type} {g : Bool} {E : Failure → Prop}

/-- The reader stands inside its buffer, at the writer's offset, in front of
the bytes `out`. -/
structure StandsBefore (r : CdrReader) (w : CdrWriter) (out : List UInt8) : Prop where
  pos_eq : r.pos = w.buf.length
  pos_le : r.pos ≤ r.buf.length
  ahead : out <+: r.buf.drop r.pos
  size_lt : r.buf.length < 2^64

/-- From wherever the writer stands, `p` reads `v` back out of the bytes `s`
appends and stops behind them, or ends in a failure of the class `E`. -/
def ReadsBack (g : Bool) (E : Failure → Prop) (p : Decoder α) (v : α) (s : CdrWriter → CdrWriter) : Prop :=
  ∀ w : CdrWriter, ∃ out, (s w).buf = w.buf ++ out ∧
    ∀ r : CdrReader, StandsBefore r w out →
      p.run (readStep g) r = .ok (v, { r with pos := r.pos + out.length }) ∨
        ∃ e, E e ∧ p.run (readStep g) r = .error e

namespace StandsBefore

theorem end_le {r : CdrReader} {w : CdrWriter} {out : List UInt8} (h : StandsBefore r w out) :
    r.pos + out.length ≤ r.buf.length := by
  have hl := h.ahead.length_le
  rw [List.length_drop] at hl
  have := h.pos_le
  omega

theorem left {r : CdrReader} {w : CdrWriter} {out out' : List UInt8}
    (h : StandsBefore r w (out ++ out')) : StandsBefore r w out :=
  ⟨h.pos_eq, h.pos_le, (List.prefix_append out out').trans h.ahead, h.size_lt⟩

theorem right {r : CdrReader} {w w' : CdrWriter} {out out' : List UInt8}
    (h : StandsBefore r w (out ++ out')) (hw : w'.buf = w.buf ++ out) :
    StandsBefore { r with pos := r.pos + out.length } w' out' := by
  obtain ⟨t, ht⟩ := h.ahead
  refine ⟨by rw [hw, List.length_append, h.pos_eq], h.left.end_le, ⟨t, ?_⟩, h.size_lt⟩
  rw [← List.drop_drop, ← ht, List.append_assoc, List.drop_left]

theorem payloadOffset_eq {r : CdrReader} {w : CdrWriter} {out : List UInt8} (h : StandsBefore r w out) :
    r.payloadOffset = w.payloadOffset := by
  have hw := w.header_le
  have hp := h.pos_eq
  have hl := h.pos_le
  have hs := h.size_lt
  unfold CdrReader.payloadOffset CdrWriter.payloadOffset sizeT
  rw [show r.pos + 2^64 - 4 = (r.pos - 4) + 2^64 by omega, Nat.add_mod_right,
    Nat.mod_eq_of_lt (by omega), hp]

theorem remaining_eq {r : CdrReader} {w : CdrWriter} {out : List UInt8} (h : StandsBefore r w out) :
    r.remaining = r.buf.length - r.pos := by
  have hl := h.pos_le
  have hs := h.size_lt
  unfold CdrReader.remaining sizeT
  rw [show r.buf.length + 2^64 - r.pos = (r.buf.length - r.pos) + 2^64 by omega,
    Nat.add_mod_right, Nat.mod_eq_of_lt (by omega)]

theorem sizeT_add {r : CdrReader} {w : CdrWriter} {out : List UInt8} (h : StandsBefore r w out)
    {n : ℕ} (hn : n ≤ out.length) : sizeT (r.pos + n) = r.pos + n := by
  have := h.end_le
  have := h.size_lt
  exact sizeT_of_lt (by omega)

/-- A copy that stays within the bytes ahead delivers them. -/
theorem copy_eq {r : CdrReader} {w : CdrWriter} {out out' : List UInt8}
    (h : StandsBefore r w (out ++ out')) : r.copy out.length = .ok out := by
  have hle := h.left.end_le
  obtain ⟨t, ht⟩ := h.ahead
  rw [CdrReader.copy, if_pos hle, ← ht, List.append_assoc, List.take_left]

end StandsBefore

namespace ReadsBack

theorem done (v : α) : ReadsBack g E (.done v) v id := by
  intro w
  refine ⟨[], by simp, fun r _ => Or.inl ?_⟩
  simp

theorem bind {p : Decoder α} {k : α → Decoder β} {v : α} {u : β} {s s' : CdrWriter → CdrWriter}
    (hp : ReadsBack g E p v s) (hk : ReadsBack g E (k v) u s') :
    ReadsBack g E (p.bind k) u (fun w => s' (s w)) := by
  intro w
  obtain ⟨out, hout, hrun⟩ := hp w
  obtain ⟨out', hout', hrun'⟩ := hk (s w)
  refine ⟨out ++ out', by rw [hout', hout, List.append_assoc], ?_⟩
  intro r hr
  rcases hrun r hr.left with hok | ⟨e, he, herr⟩
  · rw [Prog.run_bind_ok _ hok]
    rcases hrun' _ (hr.right hout) with hok' | herr'
    · left
      rw [hok', List.length_append, Nat.add_assoc]
    · exact Or.inr herr'
  · exact Or.inr ⟨e, he, Prog.run_bind_error _ herr _⟩

/-- Post-process the value read. -/
theorem map {p : Decoder α} {v : α} {s : CdrWriter → CdrWriter} (hp : ReadsBack g E p v s)
    (f : α → β) {u : β} (hu : f v = u) : ReadsBack g E (p.bind (fun a => .done (f a))) u s := by
  subst hu
  have hdone : ReadsBack g E (.done (f v)) (f v) id := done (f v)
  exact hp.bind (k := fun a => .done (f a)) hdone

theorem alignTo (n : ℕ) : ReadsBack g E (Decoder.alignTo n) () (fun w => w.alignTo n) := by
  intro w
  refine ⟨_, CdrWriter.alignTo_buf w n, fun r hr => Or.inl ?_⟩
  have hle := hr.end_le
  have hadd := hr.sizeT_add le_rfl
  rw [List.length_replicate] at hle hadd ⊢
  simp only [Decoder.run_alignTo, CdrReader.alignTo, hr.payloadOffset_eq, hadd]
  rw [if_neg (by omega)]

theorem readBytes (count elem : ℕ) (data : List UInt8) (hd : data.length = count*elem) :
    ReadsBack g E (Decoder.readBytes count elem) data (fun w => w.writeBytes data) := by
  intro w
  refine ⟨data, rfl, fun r hr => Or.inl ?_⟩
  have hle := hr.end_le
  have hsize : sizeT (count*elem) = data.length := by
    rw [hd, sizeT_of_lt]
    have := hr.size_lt
    omega
  have hall : StandsBefore r w (data ++ []) := by rwa [List.append_nil]
  have hcopy := hall.copy_eq
  simp only [Decoder.run_readBytes, CdrReader.readBytes, hsize, hr.sizeT_add le_rfl, hcopy, Except.map]
  rw [if_neg (by omega)]

theorem readAligned (p : Prim) (v : p.Val) :
    ReadsBack g E (Decoder.readAligned p) v (CdrWriter.writeScalar p v) := by
  have hb : ReadsBack g E (Decoder.readBytes 1 p.sizeof) (p.toBytes v) _ :=
    readBytes 1 p.sizeof (p.toBytes v) (by simp)
  exact (alignTo p.sizeof).bind (k := fun _ => (Decoder.readBytes 1 p.sizeof).bind
    (fun bs => .done (p.ofBytes bs))) (hb.map p.ofBytes (p.ofBytes_toBytes v))

theorem readPrim (p : Prim) (v : p.Val) :
    ReadsBack g E (Decoder.readPrim p) v (CdrWriter.writePrim p v) := by
  rw [Decoder.readPrim_eq_readAligned,
    show CdrWriter.writePrim p v = CdrWriter.writeScalar p v from
      funext (CdrWriter.writePrim_eq_writeScalar p v)]
  exact readAligned p v

theorem readUint32 (v : BitVec 32) : ReadsBack g E Decoder.readUint32 v (CdrWriter.writeUint32 v) :=
  readAligned .uint32 v

theorem readChars (s : List UInt8) :
    ReadsBack g E (Decoder.readChars (s.length + 1)) s (fun w => w.writeBytes (s ++ [0])) := by
  intro w
  refine ⟨s ++ [0], rfl, fun r hr => Or.inl ?_⟩
  have hle := hr.end_le
  have hlen : (s ++ [0]).length = s.length + 1 := by simp
  have hadd : sizeT (r.pos + (s.length + 1)) = r.pos + (s.length + 1) := hr.sizeT_add hlen.ge
  rw [hlen] at hle ⊢
  simp only [Decoder.run_readChars, CdrReader.readChars, hadd, Nat.add_sub_cancel, hr.copy_eq,
    Except.map]
  rw [if_neg (by omega)]

/-- A string whose length field does not wrap comes back whole. -/
theorem readString (s : List UInt8) (hs : s.length + 1 < 2^32) :
    ReadsBack g E Decoder.readString s (CdrWriter.writeString s) := by
  have hn : (BitVec.ofNat 32 (s.length + 1)).toNat = s.length + 1 := by
    rw [BitVec.toNat_ofNat, Nat.mod_eq_of_lt hs]
  have hc : ReadsBack g E (Decoder.readChars (BitVec.ofNat 32 (s.length + 1)).toNat) s _ :=
    hn ▸ readChars s
  exact (readUint32 _).bind (k := fun len => Decoder.readChars len.toNat) hc

/-- The length guard passes when the rest of the stream is long enough. -/
theorem guardRemaining {p : Decoder α} {v : α} {s : CdrWriter → CdrWriter} (n : ℕ)
    (hg : g = true → ∀ w : CdrWriter, w.buf.length + n ≤ (s w).buf.length) (hp : ReadsBack g E p v s) :
    ReadsBack g E ((Decoder.guardRemaining n).bind (fun _ => p)) v s := by
  intro w
  obtain ⟨out, hout, hrun⟩ := hp w
  refine ⟨out, hout, fun r hr => ?_⟩
  have hguard : (Decoder.guardRemaining n).run (readStep g) r = .ok ((), r) := by
    cases g with
    | false => exact Decoder.run_guardRemaining_false n r
    | true =>
      have hlen := hg rfl w
      have hle := hr.end_le
      rw [hout, List.length_append] at hlen
      rw [Decoder.run_guardRemaining, CdrReader.guardRemaining, if_neg (by rw [hr.remaining_eq]; omega)]
  rw [Prog.run_bind_ok _ hguard]
  exact hrun r hr

theorem times {p : Decoder α} {ser : α → CdrWriter → CdrWriter} (vs : List α)
    (hp : ∀ v ∈ vs, ReadsBack g E p v (ser v)) :
    ReadsBack g E (p.times vs.length) vs (writeEach ser vs) := by
  induction vs with
  | nil => exact done []
  | cons v vs ih =>
    have htail := ih (fun u hu => hp u (List.mem_cons_of_mem v hu))
    exact (hp v List.mem_cons_self).bind (k := fun a => (p.times vs.length).bind
      (fun as => .done (a :: as))) (htail.map (fun us => v :: us) rfl)

theorem forVec {f : α → Decoder β} {ser : β → CdrWriter → CdrWriter} {n : ℕ}
    (olds : List.Vector α n) (vs : List.Vector β n)
    (hf : ∀ v ∈ vs.toList, ∀ old, ReadsBack g E (f old) v (ser v)) :
    ReadsBack g E (Prog.forVec f olds) vs (writeEach ser vs.toList) := by
  induction n with
  | zero =>
    rw [List.Vector.eq_nil vs]
    exact done _
  | succ n ih =>
    obtain ⟨v, us, rfl⟩ := vs.exists_eq_cons
    rw [List.Vector.toList_cons] at hf ⊢
    have htail := ih olds.tail us (fun u hu => hf u (List.mem_cons_of_mem v hu))
    exact (hf v List.mem_cons_self olds.head).bind (k := fun b => (Prog.forVec f olds.tail).bind
      (fun bs => .done (b ::ᵥ bs))) (htail.map (fun us => v ::ᵥ us) rfl)

/-- With no failure allowed, the read succeeds. -/
theorem exact {p : Decoder α} {v : α} {s : CdrWriter → CdrWriter}
    (hp : ReadsBack g (fun _ => False) p v s) (w : CdrWriter) :
    ∃ out, (s w).buf = w.buf ++ out ∧ ∀ r : CdrReader, StandsBefore r w out →
      p.run (readStep g) r = .ok (v, { r with pos := r.pos + out.length }) := by
  obtain ⟨out, hout, hrun⟩ := hp w
  refine ⟨out, hout, fun r hr => ?_⟩
  rcases hrun r hr with hok | ⟨e, he, -⟩
  · exact hok
  · exact he.elim

end ReadsBack

end Rcllite
