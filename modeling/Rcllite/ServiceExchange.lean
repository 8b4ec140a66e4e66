import Rcllite.ServiceNetwork
import Rcllite.TopicDelivery

/-! One service between its clients and its servers with the code of the entities in place: requests and replies
are serialized, wrapped, carried and taken as every sample is, and the callbacks of the servers have a state.
What holds of the bare network of requests and replies holds here. -/
namespace Rcllite
open Transition

/-- A generated service type, with what its codecs rely on. -/
structure ServiceType where
  req : Members
  resp : Members
  reqElements : req.SeqElementsNonempty
  respElements : resp.SeqElementsNonempty
  reqArrays : req.ArraysBelow (2^62)

namespace ServiceType

def reqCodec (st : ServiceType) : MsgCodec st.req.Val := .ofMembers st.req st.reqElements
def respCodec (st : ServiceType) : MsgCodec st.resp.Val := .ofMembers st.resp st.respElements

/-- What `send_request` hands to `request_writer_->write`. -/
def requestPayload (st : ServiceType) (h : ServiceHeader) (request : st.req.Val) : List UInt8 :=
  (st.req.serialize request (writeServiceHeader h CdrWriter.new)).payload

end ServiceType

section Serve
variable {σ : Type} (st : ServiceType) (callback : st.req.Val → σ → Except String st.resp.Val × σ)

/-- `Service::dispatch` on a single sample: the state of the callback, and the payloads passed to the writer. -/
def serveOne (user : σ) (x : Sample) : σ × List (List UInt8) :=
  let s := (takeSamples (contained (requestDecoder st.req) (@Service.onRequest σ st.req st.resp callback)) [x]
    ⟨⟨user, []⟩, []⟩).1.state
  (s.user, s.replies)

/-- Sample after sample. -/
def serveAll : σ → List Sample → σ × List (List UInt8)
  | user, [] => (user, [])
  | user, x :: xs => ((serveAll (serveOne st callback user x).1 xs).1,
      (serveOne st callback user x).2 ++ (serveAll (serveOne st callback user x).1 xs).2)

variable {st callback}

theorem serveOne_eq {user : σ} {x : Sample} (hlen : x.payload.length < 2^63) : serveOne st callback user x =
    if x.validData then
      match (decodeWith (requestDecoder st.req) x.payload).toOption with
      | some a => ((Service.onRequest callback a ⟨user, []⟩ : ServiceReplies σ).user,
          (Service.onRequest callback a ⟨user, []⟩ : ServiceReplies σ).replies)
      | none => (user, [])
    else (user, []) := by
  have hquiet : ∀ b ∈ validPayloads [x], ∀ s : ServiceReplies σ,
      (contained (requestDecoder st.req) (@Service.onRequest σ st.req st.resp callback) b s).2 = none := by
    intro b hb s
    obtain ⟨y, hy, rfl⟩ := List.mem_map.mp hb
    rw [List.eq_of_mem_singleton (List.mem_filter.mp hy).1]
    exact contained_quiet (requestDecoder_modest st.reqArrays) _ hlen s
  unfold serveOne
  rw [takeSamples_quiet hquiet]
  by_cases hx : x.validData = true
  · have hvalid : validPayloads [x] = [x.payload] := by
      rw [validPayloads, List.filter_cons_of_pos hx]
      rfl
    rw [hvalid, if_pos hx, List.foldl_cons, List.foldl_nil, contained_fst]
    cases (decodeWith (requestDecoder st.req) x.payload).toOption <;> rfl
  · have hvalid : validPayloads [x] = [] := by
      rw [validPayloads, List.filter_cons_of_neg hx]
      rfl
    rw [hvalid, if_neg hx]
    rfl

theorem onRequest_frame {req resp : Members} (callback : req.Val → σ → Except String resp.Val × σ)
    (a : ServiceHeader × req.Val) (s : ServiceReplies σ) : Service.onRequest callback a s =
      ⟨(Service.onRequest callback a ⟨s.user, []⟩ : ServiceReplies σ).user,
        s.replies ++ (Service.onRequest callback a ⟨s.user, []⟩ : ServiceReplies σ).replies⟩ := by
  unfold Service.onRequest
  rcases callback a.2 s.user with ⟨_ | response, user⟩
  · rw [List.append_nil]
  · rfl

theorem foldl_serveAll {queue : List Sample} (hsize : ∀ x ∈ queue, x.payload.length < 2^63) (s : ServiceReplies σ) :
    (decoded (requestDecoder st.req) (validPayloads queue)).foldl (fun s a => Service.onRequest callback a s) s =
      ⟨(serveAll st callback s.user queue).1, s.replies ++ (serveAll st callback s.user queue).2⟩ := by
  induction queue generalizing s with
  | nil =>
    rw [serveAll, List.append_nil]
    rfl
  | cons x xs ih =>
    have hrest := ih (fun y hy => hsize y (List.mem_cons_of_mem _ hy))
    have hone := @serveOne_eq σ st callback s.user x (hsize x List.mem_cons_self)
    unfold decoded validPayloads at hrest ⊢
    rw [serveAll]
    by_cases hx : x.validData = true
    · rw [if_pos hx] at hone
      rw [List.filter_cons_of_pos hx, List.map_cons, List.filterMap_cons]
      cases hd : (decodeWith (requestDecoder st.req) x.payload).toOption with
      | none =>
        rw [hd] at hone
        rw [hone]
        exact hrest s
      | some a =>
        rw [hd] at hone
        dsimp only at hone ⊢
        rw [List.foldl_cons, onRequest_frame, hrest, hone, List.append_assoc]
    · rw [if_neg hx] at hone
      rw [List.filter_cons_of_neg hx, hone]
      exact hrest s

/-- A dispatch of the whole queue serves it sample after sample. -/
theorem dispatch_eq_serveAll {queue : List Sample} (hsize : ∀ x ∈ queue, x.payload.length < 2^63) (user : σ) :
    Service.dispatch st.req st.resp callback queue user =
      (⟨⟨(serveAll st callback user queue).1, (serveAll st callback user queue).2⟩, queue⟩, [], none) := by
  rw [Service.dispatch, takeAll_contained (requestDecoder_modest st.reqArrays) _ hsize, foldl_serveAll hsize]
  rfl

/-- A header decoder followed by a body decoder. -/
theorem decodeWith_pair {α β : Type} (p : Decoder α) (q : Decoder β) (b : List UInt8) :
    (decodeWith (p.bind fun x => q.bind fun y => .done (x, y)) b).toOption =
      (match CdrReader.new b with
        | .error _ => none
        | .ok r => (p.run (readStep true) r).toOption).bind fun xr =>
          (match q.run (readStep true) xr.2 with
            | .ok (y, _) => some y
            | .error _ => none).map fun y => (xr.1, y) := by
  unfold decodeWith
  cases CdrReader.new b with
  | error e => rfl
  | ok r =>
    dsimp only
    rw [Interaction.Prog.run_bind]
    cases p.run (readStep true) r with
    | error e => rfl
    | ok xr =>
      obtain ⟨x, u⟩ := xr
      dsimp only [Except.toOption, Option.bind]
      rw [Interaction.Prog.run_bind]
      cases q.run (readStep true) u with
      | error e => rfl
      | ok yr => rfl

theorem decodeWith_request (b : List UInt8) : (decodeWith (requestDecoder st.req) b).toOption =
    (openSample b).bind fun hr => (readBody st.reqCodec hr.2).map fun request => (hr.1, request) :=
  decodeWith_pair readServiceHeader (st.req.deserialize st.req.zero) b

variable (st callback)

/-- The header, the request and the response, when the callback answers the sample. -/
def answerTo (user : σ) (x : Sample) : Option (ServiceHeader × st.req.Val × st.resp.Val) :=
  if x.validData then
    (decodeWith (requestDecoder st.req) x.payload).toOption.bind fun a =>
      (callback a.2 user).1.toOption.map fun response => (a.1, a.2, response)
  else none

variable {st callback}

theorem serveOne_replies {user : σ} {x : Sample} (hlen : x.payload.length < 2^63) :
    (serveOne st callback user x).2 =
      (answerTo st callback user x).toList.map fun a => replyPayload st.resp a.1 a.2.2 := by
  rw [serveOne_eq hlen, answerTo]
  by_cases hx : x.validData = true
  · rw [if_pos hx, if_pos hx]
    cases (decodeWith (requestDecoder st.req) x.payload).toOption with
    | none => rfl
    | some a =>
      dsimp only [Option.bind]
      unfold Service.onRequest
      rcases callback a.2 user with ⟨_ | response, user'⟩ <;> rfl
  · rw [if_neg hx, if_neg hx]
    rfl

/-- With the padding of the writer, it is what the network model makes of the sample. -/
theorem serviceDispatch_eq {user : σ} {x : Sample} (hx : x.validData = true) :
    serviceDispatch st.reqCodec st.respCodec x.payload (fun request => (callback request user).1.toOption) =
      (answerTo st callback user x).map fun a => (a.2.1, a.2.2, rawResize (replyPayload st.resp a.1 a.2.2)) := by
  rw [answerTo, if_pos hx, decodeWith_request, serviceDispatch]
  cases openSample x.payload with
  | none => rfl
  | some hr =>
    dsimp only [Option.bind_eq_bind, Option.bind]
    cases readBody st.reqCodec hr.2 with
    | none => rfl
    | some request =>
      dsimp only [Option.map]
      cases (callback request user).1.toOption with
      | none => rfl
      | some response => rfl

end Serve

section Model
variable (ι κ σ : Type) (st : ServiceType)

/-- The service entities are numbered by `κ`, the clients by `ι`. `runs` records which callback ran on which
request with which response. -/
structure ExchangeState where
  clients : ι → ClientState st.req.Val st.resp.Val
  users : κ → σ
  requests : List (List UInt8)   -- the serdata written on the request topic
  replies : List (List UInt8)
  history : κ ⊕ ι → List Sample
  runs : List (κ × st.req.Val × st.resp.Val)

inductive ExchangeAction where
  | client (c : ι) (a : ClientAction st.req.Val st.resp.Val)
  | transmit (c : ι) (seq : BitVec 64)
  | arrive (r : κ ⊕ ι)
  | drop (r : κ ⊕ ι) (n : ℕ)
  | serve (k : κ)
  | take (c : ι)

end Model

namespace ExchangeState
variable {ι κ σ : Type} {st : ServiceType}

def new (user : σ) : ExchangeState ι κ σ st := ⟨fun _ => .new, fun _ => user, [], [], fun _ => [], []⟩

/-- What is written on the topic that the reader reads. -/
def written (s : ExchangeState ι κ σ st) : κ ⊕ ι → List (List UInt8)
  | .inl _ => s.requests
  | .inr _ => s.replies

variable [DecidableEq ι] [DecidableEq κ]

def setClient (s : ExchangeState ι κ σ st) (c : ι) (cs : ClientState st.req.Val st.resp.Val) :
    ExchangeState ι κ σ st :=
  { s with clients := Function.update s.clients c cs }

def setHistory (s : ExchangeState ι κ σ st) (r : κ ⊕ ι) (h : List Sample) : ExchangeState ι κ σ st :=
  { s with history := Function.update s.history r h }

def enqueue (s : ExchangeState ι κ σ st) (r : κ ⊕ ι) (x : Sample) : ExchangeState ι κ σ st :=
  s.setHistory r (s.history r ++ [x])

end ExchangeState

/-- A sample that carries the header of none of the clients. -/
def NotOurs {ι : Type} (clientId : ι → BitVec 64) (b : List UInt8) : Prop :=
  ∀ h r, openSample b = some (h, r) → ∀ c, h.clientId ≠ clientId c

section Steps
variable {ι κ σ : Type} [DecidableEq ι] [DecidableEq κ] (st : ServiceType) (iovLenBits : ℕ)
  (clientId : ι → BitVec 64) (callback : κ → st.req.Val → σ → Except String st.resp.Val × σ)

inductive ExchangeStep : ExchangeState ι κ σ st → ExchangeAction ι κ st → ExchangeState ι κ σ st → Prop
  -- everything but `dispatch`, which takes what its reader holds
  | client {s : ExchangeState ι κ σ st} (c : ι) (a : ClientAction st.req.Val st.resp.Val)
      (cs : ClientState st.req.Val st.resp.Val) (hs : ClientStep st.respCodec (clientId c) (s.clients c) a cs)
      (hreq : ∀ request sync onResponse, a = .allocate request sync onResponse → st.req.Fits StringFits request)
      (htake : ∀ b, a ≠ .take b) : ExchangeStep s (.client c a) (s.setClient c cs)
  | transmit {s : ExchangeState ι κ σ st} (c : ι) (seq : BitVec 64) (call : Call st.req.Val)
      (hc : (s.clients c).calls seq = some call) (hp : call.phase = .writing)
      (hsize : (st.requestPayload ⟨clientId c, seq⟩ call.request).length < 2^32 - 3) (allocated accepted ok : Bool)
      (d : Option (List UInt8)) (h : Writer.write iovLenBits allocated accepted
        (st.requestPayload ⟨clientId c, seq⟩ call.request) = .ok (d, ok)) :
      ExchangeStep s (.transmit c seq) { s with requests := d.toList ++ s.requests }
  | arrive {s : ExchangeState ι κ σ st} (r : κ ⊕ ι) (d : List UInt8) (hd : d ∈ s.written r) (payload : List UInt8)
      (hp : Transport d payload) : ExchangeStep s (.arrive r) (s.enqueue r ⟨payload, true⟩)
  | stray {s : ExchangeState ι κ σ st} (r : κ ⊕ ι) (x : Sample) (hlen : x.payload.length < 2^63)
      (hx : x.validData = true → NotOurs clientId x.payload) : ExchangeStep s (.arrive r) (s.enqueue r x)
  | drop {s : ExchangeState ι κ σ st} (r : κ ⊕ ι) (n : ℕ) :
      ExchangeStep s (.drop r n) (s.setHistory r ((s.history r).eraseIdx n))
  -- one sample of `Service::dispatch`; the result of the reply writer is not looked at
  | serve {s : ExchangeState ι κ σ st} (k : κ) (x : Sample) (rest : List Sample)
      (hx : s.history (.inl k) = x :: rest) (allocated accepted : Bool) (ds : List (Option (List UInt8) × Bool))
      (hsize : ∀ payload ∈ (serveOne st (callback k) (s.users k) x).2, payload.length < 2^32 - 3)
      (h : List.Forall₂ (fun payload d => Writer.write iovLenBits allocated accepted payload = .ok d)
        (serveOne st (callback k) (s.users k) x).2 ds) :
      ExchangeStep s (.serve k) { s.setHistory (.inl k) rest with
        users := Function.update s.users k (serveOne st (callback k) (s.users k) x).1
        replies := ds.filterMap Prod.fst ++ s.replies
        runs := (answerTo st (callback k) (s.users k) x).toList.map (fun a => (k, a.2)) ++ s.runs }
  -- one sample of `Client::dispatch`, up to the end of its critical section
  | take {s : ExchangeState ι κ σ st} (c : ι) (x : Sample) (rest : List Sample)
      (hx : s.history (.inr c) = x :: rest) :
      ExchangeStep s (.take c) ((s.setHistory (.inr c) rest).setClient c
        (if x.validData then (s.clients c).take st.respCodec (clientId c) x.payload else s.clients c))

def exchangeSystem (user : σ) : System (ExchangeState ι κ σ st) (ExchangeAction ι κ st) where
  init s := s = .new user
  step := ExchangeStep st iovLenBits clientId callback

end Steps

section Refinement
variable {ι κ σ : Type} {st : ServiceType} {iovLenBits : ℕ} {clientId : ι → BitVec 64}
  {callback : κ → st.req.Val → σ → Except String st.resp.Val × σ} {s s' : ExchangeState ι κ σ st}
  {t : ServiceState ι κ st.req.Val st.resp.Val}

/-- What the abstract network has written on the topic that the reader reads. -/
def ServiceState.written (t : ServiceState ι κ st.req.Val st.resp.Val) : κ ⊕ ι → List (List UInt8)
  | .inl _ => t.requests
  | .inr _ => t.replies

/-- A serdata whose payload fits the 32-bit sizes of the protocol. -/
def IsSerdata (b : List UInt8) : Prop := ∃ payload, b = rawResize payload ∧ payload.length < 2^32 - 3

/-- The network may have more on its topics than the writers got out; what a reader holds is on its topic or was
injected, and what was injected carries no header of the clients. -/
structure Simulated (clientId : ι → BitVec 64) (callback : κ → st.req.Val → σ → Except String st.resp.Val × σ)
    (s : ExchangeState ι κ σ st) (t : ServiceState ι κ st.req.Val st.resp.Val) : Prop where
  clients : t.clients = s.clients
  runs : t.runs = s.runs
  answers : ∀ x ∈ s.runs, ∃ user, (callback x.1 x.2.1 user).1 = .ok x.2.2
  written : ∀ r, ∀ b ∈ s.written r, b ∈ t.written r ∧ IsSerdata b
  history : ∀ r, ∀ x ∈ s.history r, x.payload.length < 2^63 ∧
    (x.validData = true → x.payload ∈ t.written r ∨ x.payload ∈ t.injected)
  injected : ∀ b ∈ t.injected, NotOurs clientId b

theorem IsSerdata.length_lt {b : List UInt8} (h : IsSerdata b) : b.length < 2^32 := by
  obtain ⟨payload, rfl, hsize⟩ := h
  have hpad := (rawResize_length payload).2
  omega

theorem IsSerdata.transport {d payload : List UInt8} (h : IsSerdata d) (hp : Transport d payload) : payload = d := by
  obtain ⟨p, hd, hsize⟩ := h
  exact hp.eq hd hsize

/-- The serdata that a writer makes of several payloads. -/
theorem serdata_of_writes {allocated accepted : Bool} {payloads : List (List UInt8)}
    {ds : List (Option (List UInt8) × Bool)} (hsize : ∀ payload ∈ payloads, payload.length < 2^32 - 3)
    (h : List.Forall₂ (fun payload d => Writer.write iovLenBits allocated accepted payload = .ok d) payloads ds) :
    ∀ b ∈ ds.filterMap Prod.fst, ∃ payload ∈ payloads, b = rawResize payload := by
  induction h with
  | nil => exact fun b hb => absurd hb List.not_mem_nil
  | @cons payload d payloads ds hd _ ih =>
    intro b hb
    have hrest := ih (fun p hp => hsize p (List.mem_cons_of_mem _ hp))
    obtain ⟨o, ok⟩ := d
    cases o with
    | none =>
      obtain ⟨p, hp, rfl⟩ := hrest b hb
      exact ⟨p, List.mem_cons_of_mem _ hp, rfl⟩
    | some b' =>
      rcases List.mem_cons.mp hb with rfl | hb
      · have hlt := hsize payload List.mem_cons_self
        exact ⟨payload, List.mem_cons_self, write_serdata (by omega) hd⟩
      · obtain ⟨p, hp, rfl⟩ := hrest b hb
        exact ⟨p, List.mem_cons_of_mem _ hp, rfl⟩

namespace Simulated
variable (hR : Simulated clientId callback s t)
include hR

section Histories
variable [DecidableEq ι] [DecidableEq κ]

theorem setHistory (r : κ ⊕ ι) {h : List Sample} (hh : ∀ x ∈ h, x.payload.length < 2^63 ∧
    (x.validData = true → x.payload ∈ t.written r ∨ x.payload ∈ t.injected)) :
    Simulated clientId callback (s.setHistory r h) t := by
  refine ⟨hR.clients, hR.runs, hR.answers, fun r' => ?_, fun r' x hx => ?_, hR.injected⟩
  · cases r' with
    | inl k => exact hR.written (.inl k)
    | inr c => exact hR.written (.inr c)
  · by_cases hr : r' = r
    · subst hr
      change x ∈ Function.update s.history r' h r' at hx
      rw [Function.update_self] at hx
      exact hh x hx
    · change x ∈ Function.update s.history r h r' at hx
      rw [Function.update_of_ne hr] at hx
      exact hR.history r' x hx

theorem enqueue (r : κ ⊕ ι) {x : Sample} (hlen : x.payload.length < 2^63)
    (hx : x.validData = true → x.payload ∈ t.written r ∨ x.payload ∈ t.injected) :
    Simulated clientId callback (s.enqueue r x) t := by
  refine hR.setHistory r (fun y hy => ?_)
  rcases List.mem_append.mp hy with hy | hy
  · exact hR.history r y hy
  · rw [List.mem_singleton.mp hy]
    exact ⟨hlen, hx⟩

omit [DecidableEq κ] in
theorem setClient (c : ι) (cs : ClientState st.req.Val st.resp.Val) :
    Simulated clientId callback (s.setClient c cs) (t.setClient c cs) := by
  refine ⟨?_, hR.runs, hR.answers, fun r => ?_, fun r => ?_, hR.injected⟩
  · change Function.update t.clients c cs = Function.update s.clients c cs
    rw [hR.clients]
  · cases r with
    | inl k => exact hR.written (.inl k)
    | inr c' => exact hR.written (.inr c')
  · cases r with
    | inl k => exact hR.history (.inl k)
    | inr c' => exact hR.history (.inr c')

end Histories

/-- A sample from elsewhere. -/
theorem inject {b : List UInt8} (hb : NotOurs clientId b) :
    Simulated clientId callback s { t with injected := b :: t.injected } := by
  refine ⟨hR.clients, hR.runs, hR.answers, fun r => ?_, fun r x hx => ?_, fun b' hb' => ?_⟩
  · cases r with
    | inl k => exact hR.written (.inl k)
    | inr c => exact hR.written (.inr c)
  · obtain ⟨hlen, hvalid⟩ := hR.history r x hx
    refine ⟨hlen, fun hv => (hvalid hv).imp (fun hold => ?_) (List.mem_cons_of_mem _)⟩
    cases r with
    | inl k => exact hold
    | inr c => exact hold
  · rcases List.mem_cons.mp hb' with rfl | hb'
    · exact hb
    · exact hR.injected b' hb'

/-- A request on its way, as far as the writer got it out. -/
theorem transmit {d : Option (List UInt8)} {b : List UInt8} (hb : IsSerdata b) (hd : ∀ b' ∈ d, b' = b) :
    Simulated clientId callback { s with requests := d.toList ++ s.requests } { t with requests := b :: t.requests } := by
  refine ⟨hR.clients, hR.runs, hR.answers, fun r b' hb' => ?_, fun r x hx => ?_, hR.injected⟩
  · cases r with
    | inl k =>
      rcases List.mem_append.mp hb' with hnew | hold
      · rw [hd b' (Option.mem_toList.mp hnew)]
        exact ⟨List.mem_cons_self, hb⟩
      · have hwritten := hR.written (.inl k) b' hold
        exact ⟨List.mem_cons_of_mem _ hwritten.1, hwritten.2⟩
    | inr c => exact hR.written (.inr c) b' hb'
  · obtain ⟨hlen, hvalid⟩ := hR.history r x hx
    refine ⟨hlen, fun hv => (hvalid hv).imp_left (fun hold => ?_)⟩
    cases r with
    | inl k => exact List.mem_cons_of_mem _ hold
    | inr c => exact hold

/-- A sample that the service answered. -/
theorem serve {k : κ} {h : ServiceHeader} {request : st.req.Val} {response : st.resp.Val} {users : κ → σ}
    {ds : List (List UInt8)} (hanswer : ∃ user, (callback k request user).1 = .ok response)
    (hsize : (replyPayload st.resp h response).length < 2^32 - 3)
    (hds : ∀ b ∈ ds, b = rawResize (replyPayload st.resp h response)) :
    Simulated clientId callback
      { s with users := users, replies := ds ++ s.replies, runs := (k, request, response) :: s.runs }
      (t.serve k (some (request, response, rawResize (replyPayload st.resp h response)))) := by
  refine ⟨hR.clients, ?_, fun x hx => ?_, fun r b hb => ?_, fun r x hx => ?_, hR.injected⟩
  · change (k, request, response) :: t.runs = (k, request, response) :: s.runs
    rw [hR.runs]
  · rcases List.mem_cons.mp hx with rfl | hx
    · exact hanswer
    · exact hR.answers x hx
  · cases r with
    | inl k' => exact hR.written (.inl k') b hb
    | inr c =>
      rcases List.mem_append.mp hb with hnew | hold
      · rw [hds b hnew]
        exact ⟨List.mem_cons_self, _, rfl, hsize⟩
      · have hwritten := hR.written (.inr c) b hold
        exact ⟨List.mem_cons_of_mem _ hwritten.1, hwritten.2⟩
  · obtain ⟨hlen, hvalid⟩ := hR.history r x hx
    refine ⟨hlen, fun hv => (hvalid hv).imp_left (fun hold => ?_)⟩
    cases r with
    | inl k' => exact hold
    | inr c => exact List.mem_cons_of_mem _ hold

end Simulated

variable [DecidableEq ι] [DecidableEq κ] {a : ExchangeAction ι κ st}

/-- Every step of the entities is one of the network, or leaves it alone. -/
theorem exchangeStep_simulated
    (hfits : ∀ k request user response, (callback k request user).1 = .ok response → st.resp.Fits StringFits response)
    (ht : (serviceSystem st.reqCodec st.respCodec clientId).Reachable t) (hR : Simulated clientId callback s t)
    (hs : ExchangeStep st iovLenBits clientId callback s a s') :
    ∃ t', (serviceSystem st.reqCodec st.respCodec clientId).Reachable t' ∧ Simulated clientId callback s' t' := by
  -- whatever the clients send, no header of theirs has been injected
  have hsend : ∀ a, Unforged clientId t a := by
    rintro (⟨c, a⟩ | _ | _ | _)
    · cases a with
      | register seq =>
        rintro ⟨b, hb, h, r, ho, hid, -⟩
        exact hR.injected b hb h r ho c hid
      | _ => trivial
    all_goals trivial
  cases hs with
  | client c a cs hs hreq htake =>
    refine ⟨t.setClient c cs, ht.step_restrict (.client c a cs ?_ hreq (fun b hb => absurd hb (htake b))) (hsend _),
      hR.setClient c cs⟩
    rw [hR.clients]
    exact hs
  | transmit c seq call hc hp hsize allocated accepted ok d h =>
    refine ⟨_, ht.step_restrict (.transmit c seq call (hR.clients ▸ hc) hp) (hsend _),
      hR.transmit ⟨_, rfl, hsize⟩ (fun b hb => ?_)⟩
    cases hb
    have hlen : (st.requestPayload ⟨clientId c, seq⟩ call.request).length + 4 ≤ 2^64 := by omega
    exact write_serdata hlen h
  | arrive r d hd payload hp =>
    obtain ⟨hwritten, hser⟩ := hR.written r d hd
    obtain rfl : payload = d := hser.transport hp
    have hlen := hser.length_lt
    exact ⟨t, ht, hR.enqueue r (by dsimp only; omega) (fun _ => Or.inl hwritten)⟩
  | stray r x hlen hx =>
    by_cases hvalid : x.validData = true
    · have hforeign : t.Foreign clientId x.payload := fun h r ho c hid => absurd hid (hx hvalid h r ho c)
      exact ⟨_, ht.step_restrict (.inject x.payload hforeign) (hsend _),
        (hR.inject (hx hvalid)).enqueue r hlen (fun _ => Or.inr List.mem_cons_self)⟩
    · exact ⟨t, ht, hR.enqueue r hlen (fun hv => absurd hv hvalid)⟩
  | drop r n => exact ⟨t, ht, hR.setHistory r (fun x hx => hR.history r x (List.mem_of_mem_eraseIdx hx))⟩
  | serve k x rest hx allocated accepted ds hsize h =>
    have hmem : ∀ y ∈ x :: rest, y.payload.length < 2^63 ∧
        (y.validData = true → y.payload ∈ t.written (.inl k) ∨ y.payload ∈ t.injected) := hx ▸ hR.history (.inl k)
    obtain ⟨hlen, hsrc⟩ := hmem x List.mem_cons_self
    have hrest := hR.setHistory (.inl k) (fun y hy => hmem y (List.mem_cons_of_mem _ hy))
    have hwritten := serdata_of_writes hsize h
    rw [serveOne_replies hlen] at hwritten hsize
    cases hanswer : answerTo st (callback k) (s.users k) x with
    | none =>
      -- nothing to reply to, and nothing written
      rw [hanswer] at hwritten
      have hnil : ds.filterMap Prod.fst = [] := by
        refine List.eq_nil_iff_forall_not_mem.mpr (fun b hb => ?_)
        obtain ⟨_, hnone, -⟩ := hwritten b hb
        exact absurd hnone List.not_mem_nil
      rw [hnil]
      exact ⟨t, ht, hrest.clients, hrest.runs, hrest.answers, fun r b hb => hR.written r b (by cases r <;> exact hb),
        hrest.history, hR.injected⟩
    | some out =>
      obtain ⟨hd, request, response⟩ := out
      rw [hanswer] at hwritten hsize
      have hvalid : x.validData = true := by
        by_contra hx
        rw [answerTo, if_neg hx] at hanswer
        cases hanswer
      have hdispatch := @serviceDispatch_eq σ st (callback k) (s.users k) x hvalid
      rw [hanswer] at hdispatch
      obtain ⟨hd', r, -, -, hcall, -⟩ := serviceDispatch_some st.reqCodec st.respCodec hdispatch
      have hstep := ht.step_restrict (.serve k x.payload (fun request => (callback k request (s.users k)).1.toOption)
        (by omega) (fun request' response' hresp => hfits k request' _ response' (toOption_eq_some.mp hresp))
        (hsrc hvalid)) (hsend _)
      rw [hdispatch] at hstep
      refine ⟨_, hstep, hrest.serve ⟨_, toOption_eq_some.mp hcall⟩ (hsize _ (List.mem_singleton_self _))
        (fun b hb => ?_)⟩
      obtain ⟨payload, hpayload, rfl⟩ := hwritten b hb
      rw [List.mem_singleton.mp hpayload]
  | take c x rest hx =>
    have hmem : ∀ y ∈ x :: rest, y.payload.length < 2^63 ∧
        (y.validData = true → y.payload ∈ t.written (.inr c) ∨ y.payload ∈ t.injected) := hx ▸ hR.history (.inr c)
    obtain ⟨hlen, hsrc⟩ := hmem x List.mem_cons_self
    have hrest := hR.setHistory (.inr c) (fun y hy => hmem y (List.mem_cons_of_mem _ hy))
    refine ⟨_, ?_, hrest.setClient c _⟩
    by_cases hvalid : x.validData = true
    · rw [if_pos hvalid, ← hR.clients]
      refine ht.step_restrict (.client c (.take x.payload) _ (.take x.payload (by omega))
        (fun _ _ _ h => by cases h) ?_) (hsend _)
      intro b hb
      cases hb
      exact hsrc hvalid
    · rw [if_neg hvalid, ← hR.clients, ServiceState.setClient, Function.update_eq_self]
      exact ht

/-- Clients, services, writers and readers refine the network of requests and replies. So every completion of a
client, at most one for each sequence number, carries what some callback returned for exactly the request sent;
and a dispatch of a service is nothing but serving the samples it finds, one after the other. -/
theorem exchange_correlation (user : σ) (hid : Function.Injective clientId)
    (hfits : ∀ k request user response, (callback k request user).1 = .ok response → st.resp.Fits StringFits response)
    (h : (exchangeSystem st iovLenBits clientId callback user).Reachable s) :
    (∃ t, (serviceSystem st.reqCodec st.respCodec clientId).Reachable t ∧ t.clients = s.clients ∧ t.runs = s.runs ∧
      ∀ r, ∀ b ∈ s.written r, b ∈ t.written r) ∧
    (∀ c, (s.clients c).takenSeqs.Nodup ∧ ∀ u ∈ (s.clients c).taken, ∃ call k user,
      (s.clients c).calls u.sequence = some call ∧ (k, call.request, u.response) ∈ s.runs ∧
      (callback k call.request user).1 = .ok u.response) ∧
    ∀ k, Service.dispatch st.req st.resp (callback k) (s.history (.inl k)) (s.users k) =
      (⟨⟨(serveAll st (callback k) (s.users k) (s.history (.inl k))).1,
        (serveAll st (callback k) (s.users k) (s.history (.inl k))).2⟩, s.history (.inl k)⟩, [], none) := by
  obtain ⟨t, ht, hR⟩ := h.simulation (T := serviceSystem st.reqCodec st.respCodec clientId)
    (R := Simulated clientId callback)
    (fun s hs => ⟨.new, .init rfl, by subst hs; constructor <;> simp [ExchangeState.new, ServiceState.new,
      ExchangeState.written]⟩)
    (fun s a s' t ht hR hs => exchangeStep_simulated hfits ht hR hs)
  have hI := serviceInv_reachable hid ht
  refine ⟨⟨t, ht, hR.clients, hR.runs, fun r b hb => (hR.written r b hb).1⟩, fun c => ?_, fun k => ?_⟩
  · rw [← hR.clients, ← hR.runs]
    refine ⟨(hI.client c).nodup, fun u hu => ?_⟩
    obtain ⟨call, k, hcall, hrun⟩ := hI.taken c u hu
    obtain ⟨user, hok⟩ := hR.answers (k, call.request, u.response) (hR.runs ▸ hrun)
    exact ⟨call, k, user, hcall, hrun, hok⟩
  · exact dispatch_eq_serveAll (fun x hx => (hR.history (.inl k) x hx).1) (s.users k)

end Refinement

section Run

/-- The member `value` of type `int64`. -/
def int64Members : Members := .cons "value" .scalar (.prim .int64) .nil

theorem int64Members_elements : int64Members.SeqElementsNonempty := by
  simp [int64Members, Members.SeqElementsNonempty, RosType.SeqElementsNonempty]

theorem int64Members_arrays : int64Members.ArraysBelow (2^62) := by
  simp [int64Members, Members.ArraysBelow, RosType.ArraysBelow]

def int64Service : ServiceType :=
  ⟨int64Members, int64Members, int64Members_elements, int64Members_elements, int64Members_arrays⟩

/-- A callback that counts its runs and answers 6. -/
def answerSix (_ : Unit) (_ : int64Service.req.Val) (n : ℕ) : Except String int64Service.resp.Val × ℕ :=
  (.ok (show BitVec 64 × Unit from (6#64, ())), n + 1)

theorem answerSix_serves : (serveOne int64Service (answerSix ()) 0 ⟨int64Exchange 5, true⟩).2 = [int64Exchange 6] := by
  rfl

/-- Request 1 of client 7 goes to the service and its answer is taken. -/
theorem exchange_correlation_six :
    ∃ s : ExchangeState Bool Unit ℕ int64Service,
      (exchangeSystem int64Service 64 (fun c => cond c 7 9) answerSix 0).Reachable s ∧
      (s.clients true).taken.length = 1 ∧
      ∀ u ∈ (s.clients true).taken, ∃ call k user, (s.clients true).calls u.sequence = some call ∧
        (k, call.request, u.response) ∈ s.runs ∧ (answerSix k call.request user).1 = .ok u.response := by
  have h0 : (exchangeSystem int64Service 64 (fun c : Bool => cond c 7 9) answerSix 0).Reachable (.new 0) := .init rfl
  have h1 := h0.step (.client true _ _ (.allocate (show BitVec 64 × Unit from (5#64, ())) true false (by decide))
    (fun _ _ _ _ => ⟨trivial, trivial⟩) (fun b h => by cases h))
  have h2 := h1.step (.client true _ _ (.register 1 _ rfl rfl) (fun _ _ _ h => by cases h) (fun b h => by cases h))
  have h3 := h2.step (.transmit true 1 _ rfl rfl (by decide) true true true (some (int64Exchange 5)) (by rfl))
  have h4 := h3.step (.client true _ _ (.writeOk 1 _ rfl rfl) (fun _ _ _ h => by cases h) (fun b h => by cases h))
  have h5 := h4.step (.arrive (.inl ()) (int64Exchange 5) List.mem_cons_self _ .shared)
  have h6 := h5.step (.serve () ⟨int64Exchange 5, true⟩ [] rfl true true [(some (int64Exchange 6), true)]
    (by
      intro payload hp
      have hsix : payload ∈ [int64Exchange 6] := answerSix_serves ▸ hp
      rw [List.mem_singleton.mp hsix]
      decide)
    (by
      have hwrite : Writer.write 64 true true (int64Exchange 6) = .ok (some (int64Exchange 6), true) := by rfl
      exact answerSix_serves ▸ .cons hwrite .nil))
  have h7 := h6.step (.arrive (.inr true) (int64Exchange 6) List.mem_cons_self _ .shared)
  have h8 := h7.step (.take true ⟨int64Exchange 6, true⟩ [] rfl)
  have hid : Function.Injective (fun c : Bool => (cond c 7 9 : BitVec 64)) := by
    intro c c' h
    cases c <;> cases c' <;> first | rfl | exact absurd h (by decide)
  refine ⟨_, h8, by rfl, ((exchange_correlation 0 hid ?_ h8).2.1 true).2⟩
  exact fun _ _ _ _ _ => ⟨trivial, trivial⟩

end Run

end Rcllite
