import Rcllite.ClientInvariant

/-! Clients and services of one service name over a network. Samples once
written may be delivered to any reader, at any time and any number of times,
or never, and the network may inject samples that nobody here wrote. -/
namespace Rcllite
open Transition

section Model
variable (ι κ : Type) {Request Response : Type}

/-- `injected` holds the samples from elsewhere, on either topic. `runs` records
which callback ran on which request with which result. -/
structure ServiceState (ι κ Request Response : Type) where
  clients : ι → ClientState Request Response
  requests : List (List UInt8)
  replies : List (List UInt8)
  injected : List (List UInt8)
  runs : List (κ × Request × Response)

inductive ServiceAction (ι κ Request Response : Type) where
  | client (c : ι) (a : ClientAction Request Response)
  | transmit (c : ι) (seq : BitVec 64)
  | inject (b : List UInt8)
  | serve (k : κ) (b : List UInt8) (callback : Request → Option Response)

end Model

variable {ι κ Request Response : Type} [DecidableEq ι]
  (reqCodec : MsgCodec Request) (respCodec : MsgCodec Response) (clientId : ι → BitVec 64)

/-- `Service::dispatch` on one sample: the request, the response and the reply
with the header echoed. A callback that throws returns nothing. -/
def serviceDispatch (b : List UInt8) (callback : Request → Option Response) :
    Option (Request × Response × List UInt8) := do
  let (h, r) ← openSample b
  let req ← readBody reqCodec r
  let resp ← callback req
  pure (req, resp, serviceSample respCodec h resp)

theorem serviceDispatch_some {b : List UInt8} {callback : Request → Option Response}
    {req : Request} {resp : Response} {reply : List UInt8}
    (h : serviceDispatch reqCodec respCodec b callback = some (req, resp, reply)) :
    ∃ hd r, openSample b = some (hd, r) ∧ readBody reqCodec r = some req ∧ callback req = some resp ∧
      reply = serviceSample respCodec hd resp := by
  simp only [serviceDispatch, Option.bind_eq_bind, Option.bind_eq_some_iff, Option.pure_def,
    Option.some_inj, Prod.mk.injEq] at h
  obtain ⟨⟨hd, r⟩, ho, req', hreq, resp', hresp, rfl, rfl, rfl⟩ := h
  exact ⟨hd, r, ho, hreq, hresp, rfl⟩

namespace ServiceState

def new : ServiceState ι κ Request Response := ⟨fun _ => .new, [], [], [], []⟩

def setClient (σ : ServiceState ι κ Request Response) (c : ι) (cs : ClientState Request Response) :
    ServiceState ι κ Request Response :=
  { σ with clients := Function.update σ.clients c cs }

def serve (σ : ServiceState ι κ Request Response) (k : κ) :
    Option (Request × Response × List UInt8) → ServiceState ι κ Request Response
  | none => σ
  | some (req, resp, reply) => { σ with replies := reply :: σ.replies, runs := (k, req, resp) :: σ.runs }

/-- A sample that does not carry the header of a request that a client waits on. -/
def Foreign (σ : ServiceState ι κ Request Response) (b : List UInt8) : Prop :=
  ∀ h r, openSample b = some (h, r) → ∀ c, h.clientId = clientId c → (σ.clients c).pending h.sequence = none

/-- An injected sample carries the header of the client's request `seq`. -/
def Forged (σ : ServiceState ι κ Request Response) (c : ι) (seq : BitVec 64) : Prop :=
  ∃ b ∈ σ.injected, ∃ h r, openSample b = some (h, r) ∧ h.clientId = clientId c ∧ h.sequence = seq

end ServiceState

/-- The steps of the whole system. -/
inductive ServiceStep : ServiceState ι κ Request Response → ServiceAction ι κ Request Response →
    ServiceState ι κ Request Response → Prop
  | client {σ : ServiceState ι κ Request Response} (c : ι) (a : ClientAction Request Response)
      (cs : ClientState Request Response) (hs : ClientStep respCodec (clientId c) (σ.clients c) a cs)
      (hreq : ∀ request sync onResponse, a = .allocate request sync onResponse → reqCodec.Ok request)
      (htake : ∀ b, a = .take b → b ∈ σ.replies ∨ b ∈ σ.injected) :
      ServiceStep σ (.client c a) (σ.setClient c cs)
  -- what `write` puts on the wire before it returns, be it true or false
  | transmit {σ : ServiceState ι κ Request Response} (c : ι) (seq : BitVec 64) (call : Call Request)
      (hc : (σ.clients c).calls seq = some call) (hp : call.phase = .writing) :
      ServiceStep σ (.transmit c seq)
        { σ with requests := serviceSample reqCodec ⟨clientId c, seq⟩ call.request :: σ.requests }
  | inject {σ : ServiceState ι κ Request Response} (b : List UInt8) (hb : σ.Foreign clientId b) :
      ServiceStep σ (.inject b) { σ with injected := b :: σ.injected }
  | serve {σ : ServiceState ι κ Request Response} (k : κ) (b : List UInt8)
      (callback : Request → Option Response) (hb : b.length < 2^64)
      (hresp : ∀ req resp, callback req = some resp → respCodec.Ok resp)
      (hsrc : b ∈ σ.requests ∨ b ∈ σ.injected) :
      ServiceStep σ (.serve k b callback) (σ.serve k (serviceDispatch reqCodec respCodec b callback))

def networkSystem : System (ServiceState ι κ Request Response) (ServiceAction ι κ Request Response) where
  init σ := σ = .new
  step := ServiceStep reqCodec respCodec clientId

/-- No request is sent under a header that an injected sample has carried. -/
def Unforged : ServiceState ι κ Request Response → ServiceAction ι κ Request Response → Prop
  | σ, .client c (.register seq) => ¬ σ.Forged clientId c seq
  | _, _ => True

/-- A network that forges no header of a request, be it outstanding or still to come. -/
def serviceSystem : System (ServiceState ι κ Request Response) (ServiceAction ι κ Request Response) :=
  (networkSystem reqCodec respCodec clientId).restrict (Unforged clientId)

/-- The result of some callback run on exactly the request sent as `seq`. -/
def Answers (σ : ServiceState ι κ Request Response) (c : ι) (seq : BitVec 64) (resp : Response) : Prop :=
  ∃ call k, (σ.clients c).calls seq = some call ∧ (k, call.request, resp) ∈ σ.runs

structure ServiceInv (σ : ServiceState ι κ Request Response) : Prop where
  client : ∀ c, ClientInv (σ.clients c)
  ok : ∀ c seq call, (σ.clients c).calls seq = some call → reqCodec.Ok call.request
  requests : ∀ b ∈ σ.requests, ∃ c seq call, (σ.clients c).calls seq = some call ∧
    b = serviceSample reqCodec ⟨clientId c, seq⟩ call.request
  forged : ∀ c seq, σ.Forged clientId c seq → (σ.clients c).pending seq = none
  replies : ∀ b ∈ σ.replies, b.length < 2^64 → ∃ h r resp, openSample b = some (h, r) ∧
    readBody respCodec r = some resp ∧ ∀ c, h.clientId = clientId c →
      σ.Forged clientId c h.sequence ∨ Answers σ c h.sequence resp
  taken : ∀ c, ∀ t ∈ (σ.clients c).taken, Answers σ c t.sequence t.response

section ClientMoves
variable {reqCodec respCodec clientId} {σ : ServiceState ι κ Request Response}
  (hI : ServiceInv reqCodec respCodec clientId σ) {c : ι} {a : ClientAction Request Response}
  {cs : ClientState Request Response} (hs : ClientStep respCodec (clientId c) (σ.clients c) a cs)

theorem setClient_self : (σ.setClient c cs).clients c = cs := Function.update_self ..

theorem setClient_ne {c' : ι} (h : c' ≠ c) : (σ.setClient c cs).clients c' = σ.clients c' :=
  Function.update_of_ne h ..

include hI hs

theorem setClient_calls (c' : ι) {seq : BitVec 64} {call : Call Request}
    (hc : (σ.clients c').calls seq = some call) :
    ∃ call', ((σ.setClient c cs).clients c').calls seq = some call' ∧ call'.request = call.request := by
  by_cases h : c' = c
  · subst h
    rw [setClient_self]
    exact hs.calls_kept (hI.client c') hc
  · rw [setClient_ne h]
    exact ⟨call, hc, rfl⟩

theorem setClient_answers {c' : ι} {seq : BitVec 64} {resp : Response} (h : Answers σ c' seq resp) :
    Answers (σ.setClient c cs) c' seq resp := by
  obtain ⟨call, k, hc, hrun⟩ := h
  obtain ⟨call', hc', hreq⟩ := setClient_calls hI hs c' hc
  exact ⟨call', k, hc', hreq ▸ hrun⟩

/-- The step of one client, under the network's promise about what it is
handed. -/
theorem ServiceInv.clientStep
    (hreq : ∀ request sync onResponse, a = .allocate request sync onResponse → reqCodec.Ok request)
    (htake : ∀ b, a = .take b → b ∈ σ.replies ∨ b ∈ σ.injected) (hsend : Unforged clientId σ (.client c a)) :
    ServiceInv reqCodec respCodec clientId (σ.setClient c cs) := by
  refine ⟨?_, ?_, ?_, ?_, ?_, ?_⟩
  · intro c'
    by_cases h : c' = c
    · subst h
      rw [setClient_self]
      exact hs.preserves (hI.client c')
    · rw [setClient_ne h]
      exact hI.client c'
  · -- a request on record was there before, or was allocated by this step
    intro c' seq call' hc'
    by_cases h : c' = c
    · subst h
      rw [setClient_self] at hc'
      rcases hs.calls_origin hc' with ⟨call, hc, hr⟩ | ⟨sync, onResponse, ha⟩
      · rw [hr]
        exact hI.ok c' seq call hc
      · exact hreq _ _ _ ha
    · rw [setClient_ne h] at hc'
      exact hI.ok c' seq call' hc'
  · intro b hb
    obtain ⟨c', seq, call, hc, hbe⟩ := hI.requests b hb
    obtain ⟨call', hc', hr⟩ := setClient_calls hI hs c' hc
    exact ⟨c', seq, call', hc', hr ▸ hbe⟩
  · -- only registration makes a header one that is waited on
    intro c' seq hf
    by_cases h : c' = c
    · subst h
      rw [setClient_self]
      refine hs.pending_stays_none ?_ (hI.forged c' seq hf)
      rintro rfl
      exact hsend hf
    · rw [setClient_ne h]
      exact hI.forged c' seq hf
  · -- a reply stays one to a forged header, or stays the answer to its request
    intro b hb hlen
    obtain ⟨h, r, resp, ho, hr, hcl⟩ := hI.replies b hb hlen
    refine ⟨h, r, resp, ho, hr, fun c' hid => ?_⟩
    exact (hcl c' hid).imp_right (setClient_answers hI hs)
  · intro c' t ht
    by_cases h : c' = c
    · subst h
      rw [setClient_self] at ht
      rcases hs.taken_origin ht with hold | ⟨b, hd, r, ha, hlen, ho, hid, hbody, hseq, hp⟩
      · exact setClient_answers hI hs (hI.taken c' t hold)
      · -- a freshly taken entry is pending, so the reply answers it
        rcases htake b ha with hwritten | hinjected
        · obtain ⟨hd', r', resp', ho', hbody', hcl⟩ := hI.replies b hwritten hlen
          rw [ho] at ho'
          cases ho'
          rw [hbody] at hbody'
          cases hbody'
          rcases hcl c' hid with hforged | hans
          · rw [hI.forged c' _ hforged] at hp
            cases hp
          · exact hseq ▸ setClient_answers hI hs hans
        · -- nor is the number of an injected sample pending
          rw [hI.forged c' _ ⟨b, hinjected, hd, r, ho, hid, rfl⟩] at hp
          cases hp
    · rw [setClient_ne h] at ht
      exact setClient_answers hI hs (hI.taken c' t ht)

end ClientMoves

section ServerMoves
variable {reqCodec respCodec clientId} {σ : ServiceState ι κ Request Response}
  (hI : ServiceInv reqCodec respCodec clientId σ)
omit [DecidableEq ι]
include hI

theorem ServiceInv.transmit (c : ι) (seq : BitVec 64) (call : Call Request)
    (hc : (σ.clients c).calls seq = some call) :
    ServiceInv reqCodec respCodec clientId
      { σ with requests := serviceSample reqCodec ⟨clientId c, seq⟩ call.request :: σ.requests } := by
  refine ⟨hI.client, hI.ok, ?_, hI.forged, hI.replies, hI.taken⟩
  intro b hb
  rcases List.mem_cons.mp hb with rfl | hb
  · exact ⟨c, seq, call, hc, rfl⟩
  · exact hI.requests b hb

theorem ServiceInv.inject {b : List UInt8} (hb : σ.Foreign clientId b) :
    ServiceInv reqCodec respCodec clientId { σ with injected := b :: σ.injected } := by
  refine ⟨hI.client, hI.ok, hI.requests, ?_, ?_, hI.taken⟩
  · rintro c seq ⟨b', hb', h, r, ho, hid, rfl⟩
    rcases List.mem_cons.mp hb' with rfl | hb'
    · exact hb h r ho c hid
    · exact hI.forged c _ ⟨b', hb', h, r, ho, hid, rfl⟩
  · intro b' hb' hlen
    obtain ⟨h, r, resp, ho, hr, hcl⟩ := hI.replies b' hb' hlen
    refine ⟨h, r, resp, ho, hr, fun c hid => (hcl c hid).imp_left ?_⟩
    rintro ⟨b'', hb'', hrest⟩
    exact ⟨b'', List.mem_cons_of_mem _ hb'', hrest⟩

/-- Whatever a service makes of a sample, its reply answers the request whose
header it echoes, or echoes a header that an injected sample carried. -/
theorem ServiceInv.serve (hid : Function.Injective clientId) (k : κ) (b : List UInt8)
    (callback : Request → Option Response) (hlen : b.length < 2^64)
    (hresp : ∀ req resp, callback req = some resp → respCodec.Ok resp)
    (hsrc : b ∈ σ.requests ∨ b ∈ σ.injected) :
    ServiceInv reqCodec respCodec clientId (σ.serve k (serviceDispatch reqCodec respCodec b callback)) := by
  cases hd : serviceDispatch reqCodec respCodec b callback with
  | none => exact hI
  | some out =>
    obtain ⟨req, resp, reply⟩ := out
    obtain ⟨h, r, ho, hbody, hcb, rfl⟩ := serviceDispatch_some reqCodec respCodec hd
    refine ⟨hI.client, hI.ok, hI.requests, hI.forged, ?_, ?_⟩
    · intro b' hb' hlen'
      rcases List.mem_cons.mp hb' with rfl | hb'
      · obtain ⟨r', ho', hbody'⟩ := open_serviceSample respCodec h resp (hresp req resp hcb) hlen'
        refine ⟨h, r', resp, ho', hbody', fun c hc => ?_⟩
        rcases hsrc with hwritten | hinjected
        · obtain ⟨c', seq, call, hcall, rfl⟩ := hI.requests b hwritten
          obtain ⟨r'', ho'', hbody''⟩ := open_serviceSample reqCodec ⟨clientId c', seq⟩ call.request
            (hI.ok c' seq call hcall) hlen
          rw [ho] at ho''
          cases ho''
          rw [hbody] at hbody''
          cases hbody''
          obtain rfl : c' = c := hid hc
          exact Or.inr ⟨call, k, hcall, List.mem_cons_self⟩
        · exact Or.inl ⟨b, hinjected, h, r, ho, hc, rfl⟩
      · obtain ⟨h', r', resp', ho', hbody', hcl⟩ := hI.replies b' hb' hlen'
        refine ⟨h', r', resp', ho', hbody', fun c hc => ?_⟩
        rcases hcl c hc with hforged | ⟨call, k', hcall, hrun⟩
        · exact Or.inl hforged
        · exact Or.inr ⟨call, k', hcall, List.mem_cons_of_mem _ hrun⟩
    · intro c t ht
      obtain ⟨call, k', hcall, hrun⟩ := hI.taken c t ht
      exact ⟨call, k', hcall, List.mem_cons_of_mem _ hrun⟩

end ServerMoves

omit [DecidableEq ι] in
theorem serviceInv_new : ServiceInv reqCodec respCodec clientId
    (ServiceState.new : ServiceState ι κ Request Response) where
  client _ := clientInv_new
  ok c seq call hc := by cases hc
  requests b hb := by cases hb
  forged c seq hf := rfl
  replies b hb := by cases hb
  taken c t ht := by cases ht

variable {reqCodec respCodec clientId}

theorem serviceInv_reachable (hid : Function.Injective clientId) {σ : ServiceState ι κ Request Response}
    (h : (serviceSystem reqCodec respCodec clientId).Reachable σ) : ServiceInv reqCodec respCodec clientId σ := by
  refine h.invariant _ ?_ ?_
  · rintro _ rfl
    exact serviceInv_new reqCodec respCodec clientId
  · rintro σ a σ' - hI ⟨hsend, hs⟩
    cases hs with
    | client c a cs hs hreq htake => exact hI.clientStep hs hreq htake hsend
    | transmit c seq call hc hp => exact hI.transmit c seq call hc
    | inject b hb => exact hI.inject hb
    | serve k b callback hb hresp hsrc => exact hI.serve hid k b callback hb hresp hsrc

/-- Requests and responses are correlated as long as no header is forged, in
every reachable state: at most one completion for each sequence number, always
with a response to exactly the request sent under it, and `pending_` holds
precisely what is still owed. -/
theorem service_correlation (hid : Function.Injective clientId) (σ : ServiceState ι κ Request Response)
    (h : (serviceSystem reqCodec respCodec clientId).Reachable σ) (c : ι) :
    (σ.clients c).takenSeqs.Nodup ∧
    (∀ t ∈ (σ.clients c).taken, ∃ call k, (σ.clients c).calls t.sequence = some call ∧
      (k, call.request, t.response) ∈ σ.runs) ∧
    (∀ seq p, (σ.clients c).pending seq = some p ↔ ∃ call, (σ.clients c).calls seq = some call ∧
      call.phase.Holds ∧ seq ∉ (σ.clients c).takenSeqs ∧ p = call.entry seq) ∧
    ∀ seq call, (σ.clients c).calls seq = some call →
      call.phase = .allocated ∨ call.phase = .erased ∨ call.phase = .raised →
      (σ.clients c).pending seq = none := by
  have hI := serviceInv_reachable hid h
  have hC := hI.client c
  refine ⟨hC.nodup, hI.taken c, hC.exact, ?_⟩
  intro seq call hc hp
  apply hC.pending_eq_none hc
  rintro ⟨ha, he, hr⟩
  rcases hp with hp | hp | hp
  · exact ha hp
  · exact he hp
  · exact hr hp

/-- Client `true` has the id 7, client `false` the id 9. -/
def twoIds (c : Bool) : BitVec 64 := cond c 7 9

theorem twoIds_injective : Function.Injective twoIds := by
  intro c c' h
  cases c <;> cases c' <;> first | rfl | exact absurd h (by decide)

theorem service_correlation_answered :
    ∃ σ : ServiceState Bool Unit _ _, (serviceSystem int64Codec int64Codec twoIds).Reachable σ ∧
      (σ.clients true).completed.length = 1 ∧
      ∀ t ∈ (σ.clients true).taken, ∃ call k, (σ.clients true).calls t.sequence = some call ∧
        (k, call.request, t.response) ∈ σ.runs := by
  have h0 : (serviceSystem (ι := Bool) (κ := Unit) int64Codec int64Codec twoIds).Reachable .new := .init rfl
  have h1 := h0.step_restrict (.client true _ _ (.allocate (5#64, ()) true false (by decide))
    (fun _ _ _ _ => ⟨trivial, trivial⟩) nofun) trivial
  have h2 := h1.step_restrict (.client true _ _ (.register 1 _ rfl rfl) nofun nofun)
    (fun ⟨_, hb, _⟩ => absurd hb List.not_mem_nil)
  have h3 := h2.step_restrict (.transmit true 1 _ rfl rfl) trivial
  have h4 := h3.step_restrict (.client true _ _ (.writeOk 1 _ rfl rfl) nofun nofun) trivial
  have h5 := h4.step_restrict (.serve () (int64Exchange 5) (fun _ => some (6#64, ())) (by decide)
    (fun _ _ _ => ⟨trivial, trivial⟩) (Or.inl (by decide +kernel))) trivial
  have h6 := h5.step_restrict (.client true _ _ (.take (int64Exchange 6) (by decide)) nofun
    (fun _ h => by cases h; exact Or.inl (by decide +kernel))) trivial
  have h7 := h6.step_restrict (.client true _ _ (.complete [] [] ⟨1, ⟨false, some 1⟩, (6#64, ())⟩ rfl) nofun nofun)
    trivial
  exact ⟨_, h7, rfl, (service_correlation twoIds_injective _ h7 true).2.1⟩

/-- A request under the header of client 7's first one, injected and answered
before client 7 sends anything, forges no header that is waited on. Its answer
completes the request 5, on which no callback ever ran. -/
theorem early_forgery_answered :
    ∃ σ : ServiceState Bool Unit _ _, (networkSystem int64Codec int64Codec twoIds).Reachable σ ∧
      ∃ t ∈ (σ.clients true).completed, ¬ ∃ call k, (σ.clients true).calls t.sequence = some call ∧
        (k, call.request, t.response) ∈ σ.runs := by
  have h0 : (networkSystem (ι := Bool) (κ := Unit) int64Codec int64Codec twoIds).Reachable .new := .init rfl
  have h1 := h0.step (.inject (int64Exchange 9) (fun _ _ _ _ _ => rfl))
  have h2 := h1.step (.serve () (int64Exchange 9) (fun _ => some (6#64, ())) (by decide)
    (fun _ _ _ => ⟨trivial, trivial⟩) (Or.inr List.mem_cons_self))
  have h3 := h2.step (.client true _ _ (.allocate (5#64, ()) true false (by decide))
    (fun _ _ _ _ => ⟨trivial, trivial⟩) nofun)
  have h4 := h3.step (.client true _ _ (.register 1 _ rfl rfl) nofun nofun)
  have h5 := h4.step (.transmit true 1 _ rfl rfl)
  have h6 := h5.step (.client true _ _ (.writeOk 1 _ rfl rfl) nofun nofun)
  have h7 := h6.step (.client true _ _ (.take (int64Exchange 6) (by decide)) nofun
    (fun _ h => by cases h; exact Or.inl (by decide +kernel)))
  have h8 := h7.step (.client true _ _ (.complete [] [] ⟨1, ⟨false, some 1⟩, (6#64, ())⟩ rfl) nofun nofun)
  refine ⟨_, h8, ⟨1, ⟨false, some 1⟩, (6#64, ())⟩, List.mem_cons_self, ?_⟩
  rintro ⟨call, k, hcall, hrun⟩
  have hsent : some (⟨(5#64, ()), true, false, .sent, true⟩ : Call (BitVec 64 × Unit)) = some call := hcall
  cases hsent
  have hran : (k, (5#64, ()), (6#64, ())) ∈ [((), (9#64, ()), (6#64, ()))] := hrun
  have hsame : (5#64 : BitVec 64) = 9#64 := congrArg (fun run => run.2.1.1) (List.mem_singleton.mp hran)
  exact absurd hsame (by decide)

end Rcllite
