import Rcllite.ClientInvariant

/-! The promise of `Client::call` lives on the caller's stack and is reached
through the pointer in `pending_`. Erasing the entry revokes the pointer only
as long as `dispatch` has not moved it out. -/
namespace Rcllite
open Transition

variable {Request Response : Type} {cs cs' : ClientState Request Response}

/-- The `call()` that owns the promise of `t` has neither returned nor thrown. -/
def PromiseAlive (cs : ClientState Request Response) (t : Completion Response) : Prop :=
  ∀ frame, t.entry.syncPromise = some frame → ∃ call, cs.calls frame = some call ∧
    call.phase ≠ .returned ∧ call.phase ≠ .raised

/-- A `call()` that erases its entry finds no dispatch with its promise in
hand. -/
def RevokesInTime (cs : ClientState Request Response) (a : ClientAction Request Response) : Prop :=
  ∀ seq, a = .erase seq → ∀ t ∈ cs.inHand, t.entry.syncPromise ≠ some seq

/-- The owner of a promise in hand is still waiting for it. -/
def HandAwaited (cs : ClientState Request Response) : Prop :=
  ∀ t ∈ cs.inHand, ∀ frame, t.entry.syncPromise = some frame → ∃ call, cs.calls frame = some call ∧
    call.phase ≠ .returned ∧ call.phase ≠ .raised ∧ call.phase ≠ .erased

theorem entry_promise {call : Call Request} {seq frame : BitVec 64}
    (h : (call.entry seq).syncPromise = some frame) : frame = seq := by
  unfold Call.entry at h
  cases hs : call.sync with
  | false => simp [hs] at h
  | true =>
    simp only [hs, if_true, Option.some_inj] at h
    exact h.symm

section Step
variable (hI : ClientInv cs)
include hI

/-- A promise in hand belongs to the request it was registered for, and that
request is not completed. -/
theorem ClientInv.hand_promise {t : Completion Response} (ht : t ∈ cs.inHand) {frame : BitVec 64}
    (hf : t.entry.syncPromise = some frame) :
    frame = t.sequence ∧ frame ∉ cs.completed.map Completion.sequence := by
  obtain ⟨call, -, -, he⟩ := hI.owner t (List.mem_append_left _ ht)
  have hseq : frame = t.sequence := entry_promise (he ▸ hf)
  have hnodup := hI.nodup
  rw [ClientState.takenSeqs, ClientState.taken, List.map_append] at hnodup
  refine ⟨hseq, fun hdone => ?_⟩
  exact (List.nodup_append.mp hnodup).2.2 _ (List.mem_map_of_mem ht) _ (hseq ▸ hdone) rfl

theorem ClientInv.hand_not_ready {t : Completion Response} (ht : t ∈ cs.inHand) {frame : BitVec 64}
    (hf : t.entry.syncPromise = some frame) {call : Call Request} (hc : cs.calls frame = some call) :
    call.ready = false := by
  by_contra hr
  exact (hI.hand_promise ht hf).2 (hI.ready frame call hc (Bool.not_eq_false _ ▸ hr))

omit hI in
/-- One thread moves, and not out of the promises in hand. -/
theorem HandAwaited.setPhase (hA : HandAwaited cs) {seq : BitVec 64} {call : Call Request} (ph : Phase)
    (hout : ∀ t ∈ cs.inHand, t.entry.syncPromise = some seq →
      ph ≠ .returned ∧ ph ≠ .raised ∧ ph ≠ .erased) :
    HandAwaited (cs.setCall seq { call with phase := ph }) := by
  intro t ht frame hf
  obtain ⟨c, hc, hph⟩ := hA t ht frame hf
  by_cases h : frame = seq
  · subst h
    exact ⟨_, setCall_calls_self .., hout t ht hf⟩
  · exact ⟨c, (setCall_calls_ne h _).trans hc, hph⟩

theorem HandAwaited.moveOut (hA : HandAwaited cs) {seq : BitVec 64} {p : Pending}
    (hp : cs.pending seq = some p) (resp : Response) :
    HandAwaited { cs.erasePending seq with inHand := ⟨seq, p, resp⟩ :: cs.inHand } := by
  obtain ⟨call, hc, hh, hnt, hpe⟩ := (hI.exact seq p).mp hp
  intro t ht frame hf
  rcases List.mem_cons.mp ht with rfl | ht
  · have hseq : frame = seq := entry_promise (hpe ▸ hf)
    refine ⟨call, hseq ▸ hc, fun hret => ?_, hh.2.2, hh.2.1⟩
    -- a call that returned has had its entry taken before
    have hdone := hI.ready seq call hc (hI.returned seq call hc hret)
    apply hnt
    rw [ClientState.takenSeqs, ClientState.taken, List.map_append]
    exact List.mem_append_right _ hdone
  · exact hA t ht frame hf

theorem HandAwaited.step {codec : MsgCodec Response} {clientId : BitVec 64}
    {a : ClientAction Request Response} (hA : HandAwaited cs) (hrev : RevokesInTime cs a)
    (h : ClientStep codec clientId cs a cs') : HandAwaited cs' := by
  have hkeep : ∀ ph : Phase, ph ≠ .returned ∧ ph ≠ .raised ∧ ph ≠ .erased → ∀ (seq : BitVec 64),
      ∀ t ∈ cs.inHand, t.entry.syncPromise = some seq → ph ≠ .returned ∧ ph ≠ .raised ∧ ph ≠ .erased :=
    fun ph hph _ _ _ _ => hph
  cases h with
  | allocate request sync onResponse hn =>
    intro t ht frame hf
    obtain ⟨c, hc, hph⟩ := hA t ht frame hf
    have hne : frame ≠ cs.nextSequence + 1 := by
      rintro rfl
      rw [hI.calls_next hn] at hc
      cases hc
    exact ⟨c, (setCall_calls_ne hne _).trans hc, hph⟩
  | register seq call hc hp => exact hA.setPhase .writing (hkeep _ (by decide) seq)
  | writeOk seq call hc hp => exact hA.setPhase .sent (hkeep _ (by decide) seq)
  | writeFail seq call hc hp => exact hA.setPhase .failed (hkeep _ (by decide) seq)
  | expire seq call hc hs hp hr => exact hA.setPhase .expired (hkeep _ (by decide) seq)
  | erase seq call hc hp =>
    exact hA.setPhase .erased (fun t ht hf => absurd hf (hrev seq rfl t ht))
  | throw seq call hc hp =>
    -- the thread has erased its entry, so nothing in hand points at its frame
    refine hA.setPhase .raised (fun t ht hf => ?_)
    obtain ⟨c, hcc, -, -, hne⟩ := hA t ht seq hf
    rw [hc] at hcc
    cases hcc
    exact absurd hp hne
  | ret seq call hc hs hp hr =>
    -- its promise is set, and an entry in hand has its promise still to be set
    refine hA.setPhase .returned (fun t ht hf => ?_)
    rw [hI.hand_not_ready ht hf hc] at hr
    cases hr
  | take b hb =>
    rcases take_cases codec clientId b cs with heq | ⟨hd, r, resp, p, -, -, -, hp, heq⟩
    · rwa [heq]
    · rw [heq]
      exact hA.moveOut hI hp resp
  | complete l₁ l₂ u hh =>
    intro t ht frame hf
    have hmem : t ∈ cs.inHand := by
      rw [hh]
      rcases List.mem_append.mp ht with ht | ht
      · exact List.mem_append_left _ ht
      · exact List.mem_append_right _ (List.mem_cons_of_mem u ht)
    obtain ⟨c, hc, hph⟩ := hA t hmem frame hf
    exact ⟨_, (setValue_calls _ frame).trans (Option.map_eq_some_iff.mpr ⟨c, hc, rfl⟩), hph⟩

end Step

/-- As long as no `call()` gives up while its promise is in a dispatch's hands,
`set_value` only ever reaches promises whose `call()` is still there. -/
theorem set_value_on_live_promise (codec : MsgCodec Response) (clientId : BitVec 64)
    (cs cs' : ClientState Request Response) (t : Completion Response)
    (h : ((clientSystem codec clientId).restrict RevokesInTime).Reachable cs)
    (hs : ClientStep codec clientId cs (.complete t) cs') : PromiseAlive cs t := by
  have hA : HandAwaited cs := by
    refine h.invariant_with ClientInv HandAwaited (fun s hs => clientSystem_inv hs.of_restrict) ?_ ?_
    · rintro _ rfl t ht
      cases ht
    · intro s a s' hI hA hstep
      exact hA.step hI hstep.1 hstep.2
  cases hs with
  | complete l₁ l₂ u hh =>
    intro frame hf
    obtain ⟨call, hc, hret, hraise, -⟩ := hA t (hh ▸ by simp) frame hf
    exact ⟨call, hc, hret, hraise⟩

theorem set_value_on_live_promise_answered :
    ∃ cs : ClientState Unit _, ((clientSystem int64Codec 7).restrict RevokesInTime).Reachable cs ∧
      PromiseAlive cs ⟨1, ⟨false, some 1⟩, (6#64, ())⟩ := by
  have h0 : ((clientSystem int64Codec 7).restrict RevokesInTime).Reachable
      (ClientState.new : ClientState Unit _) := .init rfl
  have h1 := h0.step ⟨nofun, .allocate () true false (by decide)⟩
  have h2 := h1.step ⟨nofun, .register 1 _ rfl rfl⟩
  have h3 := h2.step ⟨nofun, .writeOk 1 _ rfl rfl⟩
  have h4 := h3.step ⟨nofun, .take (int64Exchange 6) (by decide)⟩
  exact ⟨_, h4, set_value_on_live_promise int64Codec 7 _ _ _ h4 (.complete [] [] _ rfl)⟩

/-- `dispatch` takes the entry out, `wait_for` expires, `erase` finds nothing,
`call()` throws, and then its promise is set. -/
theorem set_value_on_dead_promise :
    ∃ (cs cs' : ClientState Unit _) (t : Completion _), (clientSystem int64Codec 7).Reachable cs ∧
      ClientStep int64Codec 7 cs (.complete t) cs' ∧ ¬ PromiseAlive cs t := by
  have h0 : (clientSystem int64Codec 7).Reachable (ClientState.new : ClientState Unit _) := .init rfl
  have h1 := h0.step (.allocate () true false (by decide))
  have h2 := h1.step (.register 1 _ rfl rfl)
  have h3 := h2.step (.writeOk 1 _ rfl rfl)
  have h4 := h3.step (.take (int64Exchange 6) (by decide))
  have h5 := h4.step (.expire 1 _ rfl rfl rfl rfl)
  have h6 := h5.step (.erase 1 _ rfl (Or.inr rfl))
  have h7 := h6.step (.throw 1 _ rfl rfl)
  refine ⟨_, _, ⟨1, ⟨false, some 1⟩, (6#64, ())⟩, h7, .complete [] [] _ rfl, fun halive => ?_⟩
  obtain ⟨call, hc, -, hraised⟩ := halive 1 rfl
  cases hc
  exact hraised rfl

end Rcllite
