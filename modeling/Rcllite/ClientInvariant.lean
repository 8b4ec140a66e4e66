import Mathlib.Logic.Function.Basic
import Mathlib.Data.List.Nodup
import Rcllite.ServiceClient

/-! What holds of a client whatever its threads and the network do: `pending_`
is exactly the set of requests still owed a response, and an entry leaves it
towards a completion at most once. -/
namespace Rcllite

structure ClientInv {Request Response : Type} (cs : ClientState Request Response) : Prop where
  counter : cs.nextSequence.toNat < 2^63
  issued : ∀ seq, (cs.calls seq).isSome ↔ 0 < seq.toNat ∧ seq.toNat ≤ cs.nextSequence.toNat
  exact : ∀ seq p, cs.pending seq = some p ↔ ∃ call, cs.calls seq = some call ∧ call.phase.Holds ∧
    seq ∉ cs.takenSeqs ∧ p = call.entry seq
  nodup : cs.takenSeqs.Nodup
  owner : ∀ t ∈ cs.taken, ∃ call, cs.calls t.sequence = some call ∧ call.phase ≠ .allocated ∧
    t.entry = call.entry t.sequence
  ready : ∀ seq call, cs.calls seq = some call → call.ready = true →
    seq ∈ cs.completed.map Completion.sequence
  returned : ∀ seq call, cs.calls seq = some call → call.phase = .returned → call.ready = true

variable {Request Response : Type} {cs : ClientState Request Response}

theorem clientInv_new : ClientInv (ClientState.new : ClientState Request Response) where
  counter := (by decide : (0 : BitVec 64).toNat < 2^63)
  issued seq := by
    simp only [ClientState.new, Option.isSome_none, Bool.false_eq_true, false_iff, not_and, not_le]
    intro h
    exact h
  exact seq p := by simp [ClientState.new]
  nodup := by simp [ClientState.takenSeqs, ClientState.taken, ClientState.new]
  owner t ht := by simp [ClientState.taken, ClientState.new] at ht
  ready seq call hc := by simp [ClientState.new] at hc
  returned seq call hc := by simp [ClientState.new] at hc

theorem setCall_calls_self (seq : BitVec 64) (call : Call Request) :
    (cs.setCall seq call).calls seq = some call := Function.update_self ..

theorem setCall_calls_ne {seq seq' : BitVec 64} (h : seq' ≠ seq) (call : Call Request) :
    (cs.setCall seq call).calls seq' = cs.calls seq' := Function.update_of_ne h ..

/-- What is recorded after a record was set: that record, or an older one under another number. -/
theorem setCall_calls_cases {seq seq' : BitVec 64} {call c : Call Request}
    (h : (cs.setCall seq call).calls seq' = some c) :
    (seq' = seq ∧ c = call) ∨ (seq' ≠ seq ∧ cs.calls seq' = some c) := by
  by_cases he : seq' = seq
  · rw [he, setCall_calls_self, Option.some_inj] at h
    exact Or.inl ⟨he, h.symm⟩
  · rw [setCall_calls_ne he] at h
    exact Or.inr ⟨he, h⟩

/-- Setting a promise changes no thread's phase. -/
theorem setValue_calls (promise : Option (BitVec 64)) (seq : BitVec 64) :
    (cs.setValue promise).calls seq = (cs.calls seq).map (fun call =>
      { call with ready := call.ready || decide (promise = some seq) }) := by
  cases promise with
  | none =>
    change cs.calls seq = _
    cases cs.calls seq <;> simp
  | some f =>
    change Function.update cs.calls f _ seq = _
    by_cases h : seq = f
    · rw [h, Function.update_self]
      simp
    · rw [Function.update_of_ne h]
      cases cs.calls seq <;> simp [Ne.symm h]

theorem complete_pending (l : List (Completion Response)) (t : Completion Response) :
    (cs.complete l t).pending = cs.pending := by
  unfold ClientState.complete ClientState.setValue
  cases t.entry.syncPromise <;> rfl

theorem complete_taken {l₁ l₂ : List (Completion Response)} {t : Completion Response}
    (hh : cs.inHand = l₁ ++ t :: l₂) : (cs.complete (l₁ ++ l₂) t).taken.Perm cs.taken := by
  change (l₁ ++ l₂ ++ t :: cs.completed).Perm (cs.inHand ++ cs.completed)
  rw [hh]
  -- both lists are `t` in front of what is left
  have hnew : (l₁ ++ l₂ ++ t :: cs.completed).Perm (t :: (l₁ ++ l₂ ++ cs.completed)) := List.perm_middle
  have hold : (l₁ ++ t :: l₂ ++ cs.completed).Perm (t :: (l₁ ++ l₂ ++ cs.completed)) := by
    rw [List.append_assoc, List.append_assoc]
    exact List.perm_middle
  calc
    (l₁ ++ l₂ ++ t :: cs.completed).Perm (t :: (l₁ ++ l₂ ++ cs.completed)) := hnew
    List.Perm _ (l₁ ++ t :: l₂ ++ cs.completed) := hold.symm

/-- `dispatch` leaves everything alone, or moves one entry out. -/
theorem take_cases (codec : MsgCodec Response) (clientId : BitVec 64) (b : List UInt8)
    (cs : ClientState Request Response) :
    cs.take codec clientId b = cs ∨
    ∃ h r resp p, openSample b = some (h, r) ∧ h.clientId = clientId ∧ readBody codec r = some resp ∧
      cs.pending h.sequence = some p ∧ cs.take codec clientId b =
        { cs.erasePending h.sequence with inHand := ⟨h.sequence, p, resp⟩ :: cs.inHand } := by
  unfold ClientState.take
  cases ho : openSample b with
  | none => exact Or.inl rfl
  | some hr =>
    obtain ⟨h, r⟩ := hr
    dsimp only
    by_cases hid : h.clientId = clientId
    · rw [if_neg (not_not.mpr hid)]
      cases hb : readBody codec r with
      | none => exact Or.inl rfl
      | some resp =>
        cases hp : cs.pending h.sequence with
        | none => exact Or.inl rfl
        | some p => exact Or.inr ⟨h, r, resp, p, rfl, hid, hb, hp, rfl⟩
    · rw [if_pos hid]
      exact Or.inl rfl

namespace ClientInv
variable (hI : ClientInv cs)
include hI

omit hI in
theorem next_toNat (hn : cs.nextSequence.toNat + 1 < 2^63) :
    (cs.nextSequence + 1).toNat = cs.nextSequence.toNat + 1 := by
  rw [BitVec.toNat_add]
  exact Nat.mod_eq_of_lt (by simp; omega)

/-- The sequence number about to be handed out is new. -/
theorem calls_next (hn : cs.nextSequence.toNat + 1 < 2^63) : cs.calls (cs.nextSequence + 1) = none := by
  have hfresh := (hI.issued (cs.nextSequence + 1)).not.mpr (by rw [next_toNat hn]; omega)
  exact Option.not_isSome_iff_eq_none.mp hfresh

theorem pending_eq_none {seq : BitVec 64} {call : Call Request} (hc : cs.calls seq = some call)
    (h : ¬ call.phase.Holds) : cs.pending seq = none := by
  cases hp : cs.pending seq with
  | none => rfl
  | some p =>
    obtain ⟨call', hc', hh, -⟩ := (hI.exact seq p).mp hp
    rw [hc] at hc'
    cases hc'
    exact absurd hh h

theorem not_taken_of_allocated {seq : BitVec 64} {call : Call Request} (hc : cs.calls seq = some call)
    (hp : call.phase = .allocated) : seq ∉ cs.takenSeqs := by
  intro h
  obtain ⟨t, ht, rfl⟩ := List.mem_map.mp h
  obtain ⟨call', hc', hne, -⟩ := hI.owner t ht
  rw [hc] at hc'
  cases hc'
  exact hne hp

/-- Moving one thread to the phase `ph`, where the slot of its own sequence in
`pending_` becomes what the phase calls for. -/
theorem advance {seq : BitVec 64} {call : Call Request} (hc : cs.calls seq = some call) (ph : Phase)
    (pending : BitVec 64 → Option Pending) (hother : ∀ seq', seq' ≠ seq → pending seq' = cs.pending seq')
    (hself : ∀ p, pending seq = some p ↔ ph.Holds ∧ seq ∉ cs.takenSeqs ∧ p = call.entry seq)
    (hreg : call.phase ≠ .allocated → ph ≠ .allocated) (hret : ph = .returned → call.ready = true) :
    ClientInv { cs.setCall seq { call with phase := ph } with pending := pending } := by
  -- only the record and the slot of `seq` differ, so every clause splits on the number it is about
  refine ⟨hI.counter, ?_, ?_, hI.nodup, ?_, ?_, ?_⟩
  · intro seq'
    have hold := hI.issued seq'
    change ((cs.setCall seq _).calls seq').isSome ↔ _
    by_cases h : seq' = seq
    · subst h
      rw [setCall_calls_self]
      rwa [hc] at hold
    · rwa [setCall_calls_ne h]
  · intro seq' p
    change pending seq' = some p ↔ ∃ c, (cs.setCall seq _).calls seq' = some c ∧ _
    by_cases h : seq' = seq
    · subst h
      rw [setCall_calls_self, hself p]
      constructor
      · rintro ⟨hh, hnt, hp⟩
        exact ⟨_, rfl, hh, hnt, hp⟩
      · rintro ⟨c, hcc, hrest⟩
        cases hcc
        exact hrest
    · rw [setCall_calls_ne h, hother seq' h]
      exact hI.exact seq' p
  · intro t ht
    obtain ⟨c, hcc, hne, he⟩ := hI.owner t ht
    by_cases h : t.sequence = seq
    · rw [h] at hcc he ⊢
      rw [hc] at hcc
      cases hcc
      exact ⟨_, setCall_calls_self .., hreg hne, he⟩
    · exact ⟨c, (setCall_calls_ne h _).trans hcc, hne, he⟩
  · intro seq' c hcc hr
    rcases setCall_calls_cases hcc with ⟨rfl, rfl⟩ | ⟨-, hcc⟩
    · exact hI.ready seq' call hc hr
    · exact hI.ready seq' c hcc hr
  · intro seq' c hcc hr
    rcases setCall_calls_cases hcc with ⟨rfl, rfl⟩ | ⟨-, hcc⟩
    · exact hret hr
    · exact hI.returned seq' c hcc hr

/-- A phase change that leaves `pending_` alone. -/
theorem setPhase {seq : BitVec 64} {call : Call Request} (hc : cs.calls seq = some call) (ph : Phase)
    (hholds : call.phase.Holds ↔ ph.Holds) (hreg : call.phase ≠ .allocated → ph ≠ .allocated)
    (hret : ph = .returned → call.ready = true) :
    ClientInv (cs.setCall seq { call with phase := ph }) := by
  apply hI.advance hc ph cs.pending (fun _ _ => rfl) _ hreg hret
  intro p
  rw [hI.exact seq p, hc, ← hholds]
  constructor
  · rintro ⟨c, hcc, hrest⟩
    cases hcc
    exact hrest
  · intro hrest
    exact ⟨call, rfl, hrest⟩

theorem register {seq : BitVec 64} {call : Call Request} (hc : cs.calls seq = some call)
    (hp : call.phase = .allocated) :
    ClientInv ((cs.setCall seq { call with phase := .writing }).insertPending seq (call.entry seq)) := by
  apply hI.advance hc .writing _ (fun seq' h => Function.update_of_ne h _ _) _ (fun h => absurd hp h) nofun
  intro p
  have hnt := hI.not_taken_of_allocated hc hp
  rw [Function.update_self, Option.some_inj]
  constructor
  · intro h
    exact ⟨by simp [Phase.Holds], hnt, h.symm⟩
  · rintro ⟨-, -, h⟩
    exact h.symm

theorem erase {seq : BitVec 64} {call : Call Request} (hc : cs.calls seq = some call) :
    ClientInv ((cs.setCall seq { call with phase := .erased }).erasePending seq) := by
  apply hI.advance hc .erased _ (fun seq' h => Function.update_of_ne h _ _) _ nofun nofun
  intro p
  rw [Function.update_self]
  simp [Phase.Holds]

theorem allocate (request : Request) (sync onResponse : Bool) (hn : cs.nextSequence.toNat + 1 < 2^63) :
    ClientInv { cs.setCall (cs.nextSequence + 1) ⟨request, sync, onResponse, .allocated, false⟩ with
      nextSequence := cs.nextSequence + 1 } := by
  have hnext := next_toNat hn
  have hnone := hI.calls_next hn
  -- nothing that is recorded anywhere can name the fresh number
  have hne : ∀ {seq : BitVec 64} {call : Call Request}, cs.calls seq = some call →
      seq ≠ cs.nextSequence + 1 := by
    rintro seq call hc rfl
    rw [hnone] at hc
    cases hc
  refine ⟨by simp only [hnext]; exact hn, ?_, ?_, hI.nodup, ?_, ?_, ?_⟩
  · intro seq
    have hold := hI.issued seq
    change ((cs.setCall _ _).calls seq).isSome ↔ 0 < seq.toNat ∧ seq.toNat ≤ (cs.nextSequence + 1).toNat
    by_cases h : seq = cs.nextSequence + 1
    · rw [h, setCall_calls_self, hnext]
      simp
    · have hv : seq.toNat ≠ (cs.nextSequence + 1).toNat := fun hv => h (BitVec.eq_of_toNat_eq hv)
      rw [setCall_calls_ne h, hold, hnext]
      omega
  · intro seq p
    change cs.pending seq = some p ↔ _
    rw [hI.exact seq p]
    constructor
    · rintro ⟨call, hc, hrest⟩
      exact ⟨call, (setCall_calls_ne (hne hc) _).trans hc, hrest⟩
    · rintro ⟨call, hc, hh, hrest⟩
      rcases setCall_calls_cases hc with ⟨-, rfl⟩ | ⟨-, hc⟩
      · exact absurd rfl hh.1
      · exact ⟨call, hc, hh, hrest⟩
  · intro t ht
    obtain ⟨call, hc, hrest⟩ := hI.owner t ht
    exact ⟨call, (setCall_calls_ne (hne hc) _).trans hc, hrest⟩
  · intro seq call hc hr
    rcases setCall_calls_cases hc with ⟨-, rfl⟩ | ⟨-, hc⟩
    · cases hr
    · exact hI.ready seq call hc hr
  · intro seq call hc hr
    rcases setCall_calls_cases hc with ⟨-, rfl⟩ | ⟨-, hc⟩
    · cases hr
    · exact hI.returned seq call hc hr

/-- Moving an entry out of `pending_` turns it into a taken one. -/
theorem moveOut {seq : BitVec 64} {p : Pending} (hp : cs.pending seq = some p) (resp : Response) :
    ClientInv { cs.erasePending seq with inHand := ⟨seq, p, resp⟩ :: cs.inHand } := by
  obtain ⟨call, hc, hh, hnt, hpe⟩ := (hI.exact seq p).mp hp
  refine ⟨hI.counter, hI.issued, ?_, List.nodup_cons.mpr ⟨hnt, hI.nodup⟩, ?_, hI.ready, hI.returned⟩
  · intro seq' p'
    change Function.update cs.pending seq none seq' = some p' ↔
      ∃ call, cs.calls seq' = some call ∧ call.phase.Holds ∧ seq' ∉ seq :: cs.takenSeqs ∧ _
    by_cases h : seq' = seq
    · rw [h, Function.update_self]
      simp
    · rw [Function.update_of_ne h, hI.exact seq' p', List.mem_cons, not_or]
      simp only [h, not_false_eq_true, true_and]
  · intro t ht
    rcases List.mem_cons.mp ht with rfl | ht
    · exact ⟨call, hc, hh.1, hpe⟩
    · exact hI.owner t ht

/-- Completing an entry in hand only moves it to the completed ones and marks a
promise. -/
theorem complete {l₁ l₂ : List (Completion Response)} {t : Completion Response}
    (hh : cs.inHand = l₁ ++ t :: l₂) : ClientInv (cs.complete (l₁ ++ l₂) t) := by
  have hperm := complete_taken hh
  have hseqs : (cs.complete (l₁ ++ l₂) t).takenSeqs.Perm cs.takenSeqs := hperm.map _
  have hcalls (seq : BitVec 64) : (cs.complete (l₁ ++ l₂) t).calls seq = _ :=
    setValue_calls t.entry.syncPromise seq
  have hpend : (cs.complete (l₁ ++ l₂) t).pending = cs.pending := complete_pending _ t
  have hnext : (cs.complete (l₁ ++ l₂) t).nextSequence = cs.nextSequence := by
    unfold ClientState.complete ClientState.setValue
    cases t.entry.syncPromise <;> rfl
  have ht : t ∈ cs.taken := by
    rw [ClientState.taken, hh]
    simp
  refine ⟨hnext ▸ hI.counter, ?_, ?_, hseqs.nodup_iff.mpr hI.nodup, ?_, ?_, ?_⟩
  · intro seq
    rw [hcalls, Option.isSome_map, hnext]
    exact hI.issued seq
  · -- `pending_` and the phases are as before, and the taken numbers are the same in another order
    intro seq p
    rw [hpend, hI.exact seq p, hcalls, hseqs.mem_iff]
    constructor
    · rintro ⟨call, hc, hrest⟩
      exact ⟨_, Option.map_eq_some_iff.mpr ⟨call, hc, rfl⟩, hrest⟩
    · rintro ⟨call', hc', hrest⟩
      obtain ⟨call, hc, rfl⟩ := Option.map_eq_some_iff.mp hc'
      exact ⟨call, hc, hrest⟩
  · intro u hu
    obtain ⟨call, hc, hrest⟩ := hI.owner u (hperm.mem_iff.mp hu)
    exact ⟨_, (hcalls _).trans (Option.map_eq_some_iff.mpr ⟨call, hc, rfl⟩), hrest⟩
  · intro seq call' hc' hr
    rw [hcalls] at hc'
    obtain ⟨call, hc, rfl⟩ := Option.map_eq_some_iff.mp hc'
    change seq ∈ t.sequence :: cs.completed.map _
    -- the promise set now belongs to the request that is being completed
    rcases Bool.or_eq_true_iff.mp hr with hr | hr
    · exact List.mem_cons_of_mem _ (hI.ready seq call hc hr)
    · obtain ⟨owner, -, -, he⟩ := hI.owner t ht
      have hprom : t.entry.syncPromise = some seq := of_decide_eq_true hr
      rw [he, Call.entry] at hprom
      cases hs : owner.sync with
      | false => simp [hs] at hprom
      | true =>
        rw [hs, if_pos rfl, Option.some_inj] at hprom
        rw [hprom]
        exact List.mem_cons_self
  · intro seq call' hc' hr
    rw [hcalls] at hc'
    obtain ⟨call, hc, rfl⟩ := Option.map_eq_some_iff.mp hc'
    exact Bool.or_eq_true_iff.mpr (Or.inl (hI.returned seq call hc hr))

end ClientInv

theorem ClientStep.preserves {codec : MsgCodec Response} {clientId : BitVec 64}
    {a : ClientAction Request Response} {cs' : ClientState Request Response}
    (hI : ClientInv cs) (h : ClientStep codec clientId cs a cs') : ClientInv cs' := by
  cases h with
  | allocate request sync onResponse hn => exact hI.allocate request sync onResponse hn
  | register seq call hc hp => exact hI.register hc hp
  | writeOk seq call hc hp => exact hI.setPhase hc _ (by simp [hp, Phase.Holds]) nofun nofun
  | writeFail seq call hc hp => exact hI.setPhase hc _ (by simp [hp, Phase.Holds]) nofun nofun
  | expire seq call hc hs hp hr => exact hI.setPhase hc _ (by simp [hp, Phase.Holds]) nofun nofun
  | erase seq call hc hp => exact hI.erase hc
  | throw seq call hc hp => exact hI.setPhase hc _ (by simp [hp, Phase.Holds]) nofun nofun
  | ret seq call hc hs hp hr => exact hI.setPhase hc _ (by simp [hp, Phase.Holds]) nofun (fun _ => hr)
  | take b hb =>
    rcases take_cases codec clientId b cs with heq | ⟨hd, r, resp, p, -, -, -, hp, heq⟩
    · rwa [heq]
    · rw [heq]
      exact hI.moveOut hp resp
  | complete l₁ l₂ t hh => exact hI.complete hh

theorem clientSystem_inv {codec : MsgCodec Response} {clientId : BitVec 64}
    (h : (clientSystem codec clientId).Reachable cs) : ClientInv cs :=
  h.invariant ClientInv (fun _ hs => hs ▸ clientInv_new) (fun _ _ _ _ hI hs => ClientStep.preserves hI hs)

theorem setCall_keeps {seq seq' : BitVec 64} {call call' new : Call Request} (hc : cs.calls seq = some call)
    (hc' : cs.calls seq' = some call') (hnew : new.request = call.request) :
    ∃ call'', (cs.setCall seq new).calls seq' = some call'' ∧ call''.request = call'.request := by
  by_cases h : seq' = seq
  · subst h
    rw [hc] at hc'
    cases hc'
    exact ⟨new, setCall_calls_self .., hnew⟩
  · exact ⟨call', (setCall_calls_ne h new).trans hc', rfl⟩

section Past
variable {codec : MsgCodec Response} {clientId : BitVec 64} {a : ClientAction Request Response}
  {cs' : ClientState Request Response} (hI : ClientInv cs) (h : ClientStep codec clientId cs a cs')
include hI h

/-- No step forgets a request or alters it. -/
theorem ClientStep.calls_kept {seq : BitVec 64} {call : Call Request} (hc : cs.calls seq = some call) :
    ∃ call', cs'.calls seq = some call' ∧ call'.request = call.request := by
  cases h with
  | allocate request sync onResponse hn =>
    have hne : seq ≠ cs.nextSequence + 1 := by
      rintro rfl
      rw [hI.calls_next hn] at hc
      cases hc
    exact ⟨call, (setCall_calls_ne hne _).trans hc, rfl⟩
  | register s c hs hp => exact setCall_keeps hs hc rfl
  | writeOk s c hs hp => exact setCall_keeps hs hc rfl
  | writeFail s c hs hp => exact setCall_keeps hs hc rfl
  | expire s c hs _ hp _ => exact setCall_keeps hs hc rfl
  | erase s c hs hp => exact setCall_keeps hs hc rfl
  | throw s c hs hp => exact setCall_keeps hs hc rfl
  | ret s c hs _ hp _ => exact setCall_keeps hs hc rfl
  | take b hb =>
    refine ⟨call, ?_, rfl⟩
    rcases take_cases codec clientId b cs with heq | ⟨hd, r, resp, p, -, -, -, hp, heq⟩
    · rwa [heq]
    · rw [heq]
      exact hc
  | complete l₁ l₂ t hh =>
    refine ⟨_, (setValue_calls _ seq).trans (Option.map_eq_some_iff.mpr ⟨call, hc, rfl⟩), rfl⟩

omit hI in
/-- Only registration puts an entry into `pending_`. -/
theorem ClientStep.pending_stays_none {seq : BitVec 64} (hne : a ≠ .register seq) (hnone : cs.pending seq = none) :
    cs'.pending seq = none := by
  cases h with
  | register s c hs hp =>
    have hs : seq ≠ s := fun he => hne (he ▸ rfl)
    exact (Function.update_of_ne hs _ _).trans hnone
  | erase s c hs hpa =>
    change Function.update cs.pending s none seq = none
    by_cases h : seq = s
    · rw [h, Function.update_self]
    · rw [Function.update_of_ne h, hnone]
  | take b hb =>
    rcases take_cases codec clientId b cs with heq | ⟨hd, r, resp, p, -, -, -, -, heq⟩
    · rwa [heq]
    · rw [heq]
      change Function.update cs.pending hd.sequence none seq = none
      by_cases h : seq = hd.sequence
      · rw [h, Function.update_self]
      · rw [Function.update_of_ne h, hnone]
  | complete l₁ l₂ t hh => rwa [complete_pending]
  | _ => exact hnone

omit hI in
/-- Requests enter the record by allocation only. -/
theorem ClientStep.calls_origin {seq : BitVec 64} {call' : Call Request} (hc' : cs'.calls seq = some call') :
    (∃ call, cs.calls seq = some call ∧ call'.request = call.request) ∨
      ∃ sync onResponse, a = .allocate call'.request sync onResponse := by
  have hset : ∀ {s : BitVec 64} {c : Call Request} (ph : Phase), cs.calls s = some c →
      (cs.setCall s { c with phase := ph }).calls seq = some call' →
      ∃ call, cs.calls seq = some call ∧ call'.request = call.request := by
    intro s c ph hs hn
    rcases setCall_calls_cases hn with ⟨rfl, rfl⟩ | ⟨-, hn⟩
    · exact ⟨c, hs, rfl⟩
    · exact ⟨call', hn, rfl⟩
  cases h with
  | allocate request sync onResponse hn =>
    rcases setCall_calls_cases hc' with ⟨-, rfl⟩ | ⟨-, hc'⟩
    · exact Or.inr ⟨sync, onResponse, rfl⟩
    · exact Or.inl ⟨call', hc', rfl⟩
  | register s c hs hp => exact Or.inl (hset _ hs hc')
  | writeOk s c hs hp => exact Or.inl (hset _ hs hc')
  | writeFail s c hs hp => exact Or.inl (hset _ hs hc')
  | expire s c hs _ hp _ => exact Or.inl (hset _ hs hc')
  | erase s c hs hp => exact Or.inl (hset _ hs hc')
  | throw s c hs hp => exact Or.inl (hset _ hs hc')
  | ret s c hs _ hp _ => exact Or.inl (hset _ hs hc')
  | take b hb =>
    rcases take_cases codec clientId b cs with heq | ⟨hd, r, resp, p, -, -, -, -, heq⟩ <;>
      rw [heq] at hc'
    · exact Or.inl ⟨call', hc', rfl⟩
    · exact Or.inl ⟨call', hc', rfl⟩
  | complete l₁ l₂ t hh =>
    obtain ⟨call, hc, rfl⟩ := Option.map_eq_some_iff.mp ((setValue_calls _ seq).symm.trans hc')
    exact Or.inl ⟨call, hc, rfl⟩

omit hI in
/-- An entry is taken by `dispatch`, for a decodable sample that carries the
client's id and the sequence of a pending request. -/
theorem ClientStep.taken_origin {t : Completion Response} (ht : t ∈ cs'.taken) :
    t ∈ cs.taken ∨ ∃ b h r, a = .take b ∧ b.length < 2^64 ∧ openSample b = some (h, r) ∧
      h.clientId = clientId ∧ readBody codec r = some t.response ∧ h.sequence = t.sequence ∧
      cs.pending h.sequence = some t.entry := by
  cases h with
  | take b hb =>
    rcases take_cases codec clientId b cs with heq | ⟨hd, r, resp, p, ho, hid, hr, hp, heq⟩ <;>
      rw [heq] at ht
    · exact Or.inl ht
    · rcases List.mem_cons.mp ht with rfl | ht
      · exact Or.inr ⟨b, hd, r, rfl, hb, ho, hid, hr, rfl, hp⟩
      · exact Or.inl ht
  | complete l₁ l₂ u hh => exact Or.inl ((complete_taken hh).mem_iff.mp ht)
  | _ => exact Or.inl ht

end Past

end Rcllite
