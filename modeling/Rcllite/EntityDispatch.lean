import Rcllite.GraphMonitor
import Rcllite.MsgSafety
import Rcllite.ServiceHeader

/-! `Subscription::dispatch` and `Service::dispatch`. Both drain their reader with
`Reader::take`; here the loop also records which samples it has given back, and its
callback keeps what it did before it raised. -/
namespace Rcllite
open Interaction

variable {σ : Type}

section Take

/-- The state of the callback, and the samples released with `ddsi_serdata_unref`. -/
structure TakeState (σ : Type) where
  state : σ
  released : List Sample

/-- The inner loop of `take`: an exception of `fn` leaves it before the sample is released. -/
def takeSamples (fn : List UInt8 → σ → σ × Option Failure) : List Sample → TakeState σ →
    TakeState σ × Option Failure
  | [], t => (t, none)
  | x :: xs, t =>
    if x.validData then
      match fn x.payload t.state with
      | (s, none) => takeSamples fn xs ⟨s, t.released ++ [x]⟩
      | (s, some e) => (⟨s, t.released⟩, some e)
    else takeSamples fn xs ⟨t.state, t.released ++ [x]⟩

/-- The outer loop: `dds_takecdr` hands out the queue in batches of 16, and a short batch is the last.
Also what is left in the queue. -/
def takeAll (fn : List UInt8 → σ → σ × Option Failure) (queue : List Sample) (t : TakeState σ) :
    TakeState σ × List Sample × Option Failure :=
  match takeSamples fn (queue.take 16) t with
  | (t', some e) => (t', queue.drop 16, some e)
  | (t', none) =>
    if (queue.take 16).length < 16 then (t', queue.drop 16, none) else takeAll fn (queue.drop 16) t'
termination_by queue.length
decreasing_by
  rename_i h
  simp only [List.length_take, List.length_drop] at h ⊢
  omega

/-- The callback of `Reader.take`, which forgets its state when it raises. -/
def forgetful (f : List UInt8 → σ → Except Failure σ) (payload : List UInt8) (s : σ) : σ × Option Failure :=
  match f payload s with
  | .ok s' => (s', none)
  | .error e => (s, some e)

theorem takeSamples_forgetful (f : List UInt8 → σ → Except Failure σ) (xs : List Sample) (t : TakeState σ) :
    ((takeSamples (forgetful f) xs t).1.state, (takeSamples (forgetful f) xs t).2) = takeBatch f xs t.state := by
  induction xs generalizing t with
  | nil => rfl
  | cons x xs ih =>
    rw [takeSamples, takeBatch]
    split_ifs
    · unfold forgetful
      cases hf : f x.payload t.state with
      | ok s' => exact ih ⟨s', t.released ++ [x]⟩
      | error e => rfl
    · exact ih ⟨t.state, t.released ++ [x]⟩

/-- Without the record of releases this is `Reader.take`. -/
theorem takeAll_forgetful (f : List UInt8 → σ → Except Failure σ) (queue : List Sample) (t : TakeState σ) :
    ((takeAll (forgetful f) queue t).1.state, (takeAll (forgetful f) queue t).2) =
      Reader.take f queue t.state := by
  induction queue, t using takeAll.induct (forgetful f) with
  | case1 queue t t' e h =>
    have hbatch := takeSamples_forgetful f (queue.take 16) t
    rw [h] at hbatch
    rw [takeAll, Reader.take, h, ← hbatch]
  | case2 queue t t' h hlen =>
    have hbatch := takeSamples_forgetful f (queue.take 16) t
    rw [h] at hbatch
    rw [takeAll, Reader.take, h, ← hbatch]
    simp only [if_pos hlen]
  | case3 queue t t' h hlen ih =>
    have hbatch := takeSamples_forgetful f (queue.take 16) t
    rw [h] at hbatch
    rw [takeAll, Reader.take, h, ← hbatch]
    simp only [if_neg hlen]
    exact ih

section Quiet
variable {fn : List UInt8 → σ → σ × Option Failure}

/-- A callback that never raises sees every valid payload, and every sample is released. -/
theorem takeSamples_quiet {xs : List Sample} (hfn : ∀ b ∈ validPayloads xs, ∀ s, (fn b s).2 = none)
    (t : TakeState σ) : takeSamples fn xs t =
      (⟨(validPayloads xs).foldl (fun s b => (fn b s).1) t.state, t.released ++ xs⟩, none) := by
  induction xs generalizing t with
  | nil => simp [takeSamples, validPayloads]
  | cons x xs ih =>
    rw [takeSamples]
    by_cases hx : x.validData
    · have hcons : validPayloads (x :: xs) = x.payload :: validPayloads xs := by
        rw [validPayloads, List.filter_cons_of_pos hx]
        rfl
      rw [hcons] at hfn ⊢
      have hnone := hfn x.payload List.mem_cons_self t.state
      rw [if_pos hx]
      rcases hf : fn x.payload t.state with ⟨s, e⟩
      rw [hf] at hnone
      cases hnone
      dsimp only
      rw [ih (fun b hb => hfn b (List.mem_cons_of_mem _ hb)), List.foldl_cons, hf, List.append_assoc]
      rfl
    · have hcons : validPayloads (x :: xs) = validPayloads xs := by
        rw [validPayloads, List.filter_cons_of_neg hx]
        rfl
      rw [hcons] at hfn ⊢
      rw [if_neg hx, ih hfn, List.append_assoc]
      rfl

theorem validPayloads_append (xs ys : List Sample) :
    validPayloads (xs ++ ys) = validPayloads xs ++ validPayloads ys := by
  simp [validPayloads]

/-- The whole queue, whatever its length modulo 16. -/
theorem takeAll_quiet {queue : List Sample} (hfn : ∀ b ∈ validPayloads queue, ∀ s, (fn b s).2 = none)
    (t : TakeState σ) : takeAll fn queue t =
      (⟨(validPayloads queue).foldl (fun s b => (fn b s).1) t.state, t.released ++ queue⟩, [], none) := by
  have hsplit := validPayloads_append (queue.take 16) (queue.drop 16)
  rw [List.take_append_drop] at hsplit
  have hhead : ∀ b ∈ validPayloads (queue.take 16), ∀ s, (fn b s).2 = none :=
    fun b hb => hfn b (hsplit ▸ List.mem_append_left _ hb)
  rw [takeAll, takeSamples_quiet hhead t]
  dsimp only
  split_ifs with hlen
  · -- a short batch was all there is
    have hall : queue.take 16 = queue := by
      apply List.take_of_length_le
      rw [List.length_take] at hlen
      omega
    have hnil : queue.drop 16 = [] := by
      apply List.drop_eq_nil_of_le
      rw [List.length_take] at hlen
      omega
    rw [hall, hnil]
  · rw [takeAll_quiet (fun b hb => hfn b (hsplit ▸ List.mem_append_right _ hb)), hsplit, List.foldl_append,
      List.append_assoc, List.take_append_drop]
termination_by queue.length
decreasing_by
  simp only [List.length_take, List.length_drop] at hlen ⊢
  omega

end Quiet

end Take

section Contained

/-- `CdrReader r(payload, size)`, and a decoding program run on it. -/
def decodeWith {α : Type} (p : Decoder α) (payload : List UInt8) : Except Failure α :=
  match CdrReader.new payload with
  | .error e => .error e
  | .ok r => (p.run (readStep true) r).map Prod.fst

/-- The `try` block of a dispatch callback: `deserialize` returning `false` ends it, an exception of the
reader is logged, and `handle` is what happens to a decoded message, exceptions of the user's callback
caught. Reading outside the buffer would not be an exception. -/
def contained {α : Type} (p : Decoder α) (handle : α → σ → σ) (payload : List UInt8) (s : σ) :
    σ × Option Failure :=
  match decodeWith p payload with
  | .ok a => (handle a s, none)
  | .error .returnFalse => (s, none)
  | .error (.error _) => (s, none)
  | .error .outOfBounds => (s, some .outOfBounds)

/-- The messages that the payloads decode to, in order. -/
def decoded {α : Type} (p : Decoder α) (payloads : List (List UInt8)) : List α :=
  payloads.filterMap fun b => (decodeWith p b).toOption

/-- A decoder that keeps to small steps never leaves the buffer. -/
theorem decodeWith_clean {α : Type} {p : Decoder α} (hp : p.Modest) {payload : List UInt8}
    (hb : payload.length < 2^63) : decodeWith p payload ≠ .error .outOfBounds := by
  intro h
  unfold decodeWith at h
  cases hn : CdrReader.new payload with
  | error e =>
    rw [hn] at h
    have he : e = Failure.outOfBounds := Except.error.inj h
    exact new_clean payload (he ▸ hn)
  | ok r =>
    obtain ⟨hr, rfl⟩ := new_inside hn
    rw [hn] at h
    dsimp only at h
    cases hrun : p.run (readStep true) ⟨payload, 4⟩ with
    | ok x =>
      rw [hrun] at h
      cases h
    | error e =>
      rw [hrun] at h
      cases h
      exact run_clean hp true hr hb hrun rfl

theorem contained_fst {α : Type} (p : Decoder α) (handle : α → σ → σ) (payload : List UInt8) (s : σ) :
    (contained p handle payload s).1 =
      match (decodeWith p payload).toOption with
      | some a => handle a s
      | none => s := by
  unfold contained
  rcases decodeWith p payload with (_ | _ | _) | a <;> rfl

theorem contained_quiet {α : Type} {p : Decoder α} (hp : p.Modest) (handle : α → σ → σ) {payload : List UInt8}
    (hb : payload.length < 2^63) (s : σ) : (contained p handle payload s).2 = none := by
  have hclean := decodeWith_clean hp hb
  unfold contained
  rcases hd : decodeWith p payload with (_ | _ | _) | a
  · rfl
  · rfl
  · exact absurd hd hclean
  · rfl

/-- Draining a queue handles every message that decodes, once and in order, and releases every sample. -/
theorem takeAll_contained {α : Type} {p : Decoder α} (hp : p.Modest) (handle : α → σ → σ) {queue : List Sample}
    (hsize : ∀ x ∈ queue, x.payload.length < 2^63) (s : σ) :
    takeAll (contained p handle) queue ⟨s, []⟩ =
      (⟨(decoded p (validPayloads queue)).foldl (fun s a => handle a s) s, queue⟩, [], none) := by
  have hquiet : ∀ b ∈ validPayloads queue, ∀ s, (contained p handle b s).2 = none := by
    intro b hb s
    obtain ⟨x, hx, rfl⟩ := List.mem_map.mp hb
    exact contained_quiet hp handle (hsize x (List.mem_filter.mp hx).1) s
  rw [takeAll_quiet hquiet]
  -- payloads that do not decode leave the state alone
  have hfold : ∀ (bs : List (List UInt8)) (s : σ), bs.foldl (fun s b => (contained p handle b s).1) s =
      (decoded p bs).foldl (fun s a => handle a s) s := by
    intro bs
    induction bs with
    | nil => exact fun s => rfl
    | cons b bs ih =>
      intro s
      rw [List.foldl_cons, ih, contained_fst, decoded, decoded, List.filterMap_cons]
      cases (decodeWith p b).toOption <;> rfl
  rw [hfold]
  rfl

end Contained

/-- What a subscription has done: the state its callback works on, and the messages it was invoked with. -/
structure SubscriptionState (M σ : Type) where
  user : σ
  invoked : List M

/-- `callback_(msg)` inside the `try`: whatever it raises is logged. -/
def Subscription.onMessage {M : Type} (callback : M → σ → Except String Unit × σ) (msg : M)
    (s : SubscriptionState M σ) : SubscriptionState M σ :=
  ⟨(callback msg s.user).2, s.invoked ++ [msg]⟩

def Subscription.dispatch (ms : Members) (callback : ms.Val → σ → Except String Unit × σ)
    (queue : List Sample) (user : σ) : TakeState (SubscriptionState ms.Val σ) × List Sample × Option Failure :=
  takeAll (contained (ms.deserialize ms.zero) (Subscription.onMessage callback)) queue ⟨⟨user, []⟩, []⟩

/-- What a service has done: the state of its callback, and the payloads passed to
`reply_writer_->write`, whose result is not looked at. -/
structure ServiceReplies (σ : Type) where
  user : σ
  replies : List (List UInt8)

/-- `read_service_header(r)` and `Request::deserialize(req, r)`. -/
def requestDecoder (req : Members) : Decoder (ServiceHeader × req.Val) := do
  let h ← readServiceHeader
  let request ← req.deserialize req.zero
  pure (h, request)

/-- The header echoed, followed by the response. -/
def replyPayload (resp : Members) (h : ServiceHeader) (response : resp.Val) : List UInt8 :=
  (resp.serialize response (writeServiceHeader h CdrWriter.new)).payload

/-- The rest of the `try` block once header and request are there. -/
def Service.onRequest {req resp : Members} (callback : req.Val → σ → Except String resp.Val × σ)
    (x : ServiceHeader × req.Val) (s : ServiceReplies σ) : ServiceReplies σ :=
  match callback x.2 s.user with
  | (.ok response, user) => ⟨user, s.replies ++ [replyPayload resp x.1 response]⟩
  | (.error _, user) => ⟨user, s.replies⟩

def Service.dispatch (req resp : Members) (callback : req.Val → σ → Except String resp.Val × σ)
    (queue : List Sample) (user : σ) : TakeState (ServiceReplies σ) × List Sample × Option Failure :=
  takeAll (contained (requestDecoder req) (Service.onRequest callback)) queue ⟨⟨user, []⟩, []⟩

/-- The requests that the callback answers, in order, with its responses. -/
def answered {req resp : Members} (callback : req.Val → σ → Except String resp.Val × σ) :
    List (ServiceHeader × req.Val) → σ → List (ServiceHeader × resp.Val)
  | [], _ => []
  | (h, request) :: rest, s =>
    match callback request s with
    | (.ok response, s') => (h, response) :: answered callback rest s'
    | (.error _, s') => answered callback rest s'

theorem foldl_onMessage {M : Type} (callback : M → σ → Except String Unit × σ) (msgs : List M)
    (s : SubscriptionState M σ) :
    msgs.foldl (fun s m => Subscription.onMessage callback m s) s =
      ⟨msgs.foldl (fun u m => (callback m u).2) s.user, s.invoked ++ msgs⟩ := by
  induction msgs generalizing s with
  | nil =>
    rw [List.append_nil]
    rfl
  | cons m msgs ih =>
    rw [List.foldl_cons, ih, Subscription.onMessage]
    simp

theorem foldl_onRequest {req resp : Members} (callback : req.Val → σ → Except String resp.Val × σ)
    (requests : List (ServiceHeader × req.Val)) (s : ServiceReplies σ) :
    requests.foldl (fun s x => Service.onRequest callback x s) s =
      ⟨requests.foldl (fun u x => (callback x.2 u).2) s.user,
        s.replies ++ (answered callback requests s.user).map (fun a => replyPayload resp a.1 a.2)⟩ := by
  induction requests generalizing s with
  | nil =>
    rw [answered, List.map_nil, List.append_nil]
    rfl
  | cons x requests ih =>
    obtain ⟨h, request⟩ := x
    rw [List.foldl_cons, List.foldl_cons, ih, answered, Service.onRequest]
    dsimp only
    rcases callback request s.user with ⟨_ | response, user⟩
    · rfl
    · simp

theorem requestDecoder_modest {req : Members} (hreq : req.ArraysBelow (2^62)) : (requestDecoder req).Modest := by
  have hheader : readServiceHeader.Modest :=
    Prog.uses_bind (Decoder.readAligned_modest .uint64) fun _ =>
      Prog.uses_bind (Decoder.readAligned_modest .int64) fun _ => trivial
  exact Prog.uses_bind hheader fun _ =>
    Prog.uses_bind (req.deserialize_modest hreq req.zero) fun _ => trivial

/-- Whatever is in the queue and whatever the callbacks raise: `dispatch` raises nothing, invokes its
callback for exactly the valid messages that decode, in order, so that its state is what these calls make of
it, replies to exactly the requests whose callback returns, in order and under their own header, and releases
every sample. The two bounds are those of objects in memory: a payload has fewer than `2^63` bytes, a fixed
array of a message fewer than `2^62`. -/
theorem dispatch_contains_errors (ms req resp : Members) (hms : ms.ArraysBelow (2^62))
    (hreq : req.ArraysBelow (2^62)) (onMessage : ms.Val → σ → Except String Unit × σ)
    (onRequest : req.Val → σ → Except String resp.Val × σ) (queue : List Sample)
    (hsize : ∀ x ∈ queue, x.payload.length < 2^63) (user : σ) :
    (∃ s, Subscription.dispatch ms onMessage queue user = (⟨s, queue⟩, [], none) ∧
      s.invoked = decoded (ms.deserialize ms.zero) (validPayloads queue) ∧
      s.user = (decoded (ms.deserialize ms.zero) (validPayloads queue)).foldl (fun u m => (onMessage m u).2) user) ∧
    (∃ s, Service.dispatch req resp onRequest queue user = (⟨s, queue⟩, [], none) ∧
      s.replies = (answered onRequest (decoded (requestDecoder req) (validPayloads queue)) user).map
        (fun a => replyPayload resp a.1 a.2) ∧
      s.user = (decoded (requestDecoder req) (validPayloads queue)).foldl (fun u x => (onRequest x.2 u).2) user) ∧
    ∀ h response, [0, 1, 0, 0] ++ LittleEndian.toBytes 8 h.clientId.toNat ++
      LittleEndian.toBytes 8 h.sequence.toNat <+: replyPayload resp h response := by
  refine ⟨⟨_, takeAll_contained (ms.deserialize_modest hms ms.zero) _ hsize _, ?_⟩,
    ⟨_, takeAll_contained (requestDecoder_modest hreq) _ hsize _, ?_⟩, ?_⟩
  · rw [foldl_onMessage]
    exact ⟨rfl, rfl⟩
  · rw [foldl_onRequest]
    exact ⟨rfl, rfl⟩
  · intro h response
    rw [← writeServiceHeader_buf]
    exact resp.serialize_extends response _

/-- A message type with one `int64`. -/
def int64Schema : Members := .cons "value" .scalar (.prim .int64) .nil

/-- A request of client 7 among payloads that do not decode and a sample without data. -/
def mixedQueue : List Sample :=
  [⟨[0, 0], true⟩, ⟨int64Exchange 5, true⟩, ⟨[], false⟩, ⟨[0, 1, 0, 0, 7], true⟩]

/-- The service answers it with one more, and the subscription, which reads the client id as its value,
has a callback that raises. -/
theorem dispatch_contains_errors_mixed :
    (∃ s, Subscription.dispatch int64Schema (fun _ n => (.error "refused", n + 1)) mixedQueue 0 =
        (⟨s, mixedQueue⟩, [], none) ∧ s.invoked = [(7#64, ())] ∧ s.user = 1) ∧
    ∃ s, Service.dispatch int64Schema int64Schema (fun _ n => (.ok (6#64, ()), n + 1)) mixedQueue 0 =
        (⟨s, mixedQueue⟩, [], none) ∧ s.replies = [int64Exchange 6] ∧ s.user = 1 := by
  obtain ⟨⟨s, hs, hinvoked, huser⟩, ⟨s', hs', hreplies, huser'⟩, -⟩ :=
    dispatch_contains_errors int64Schema int64Schema int64Schema ⟨nofun, trivial, trivial⟩ ⟨nofun, trivial, trivial⟩
      (fun _ n => (.error "refused", n + 1)) (fun _ n => (.ok (6#64, ()), n + 1)) mixedQueue (by decide) (0 : ℕ)
  exact ⟨⟨s, hs, hinvoked.trans rfl, huser.trans rfl⟩, s', hs', hreplies.trans rfl, huser'.trans rfl⟩

end Rcllite
