import Rcllite.Lib.Transition
import Rcllite.PySubscription
import Rcllite.RawSerdata

/-! One topic between publishers and subscriptions in C++ and in Python. A published message is serialized,
wrapped into a serdata, carried by the DDS library as it likes, put together again by the reader, decoded and
handed to the callback. -/
namespace Rcllite
open Transition

section Publish
variable (iovLenBits : ℕ) (allocated accepted : Bool)

/-- `Writer::write`: the serdata given to `dds_writecdr`, and whether that was accepted. -/
def Writer.write (payload : List UInt8) : Except MemoryFault (Option (List UInt8) × Bool) :=
  match rawSerdataFromBlob iovLenBits allocated payload with
  | .ok (some d) => .ok (some d, accepted)
  | .ok none => .ok (none, false)
  | .error e => .error e

/-- A write that returned false becomes an exception. -/
def writeResult (message : String) (r : Option (List UInt8) × Bool) : Option (List UInt8) × Except String Unit :=
  (r.1, if r.2 then .ok () else .error message)

/-- `Publisher::publish`: what reaches `dds_writecdr`, and what the caller sees. -/
def Publisher.publish (ms : Members) (rosTopic : String) (msg : ms.Val) :
    Except MemoryFault (Option (List UInt8) × Except String Unit) :=
  (Writer.write iovLenBits allocated accepted (ms.encode msg)).map (writeResult ("publish failed on " ++ rosTopic))

/-- `check_cdr_payload`. -/
def checkCdrPayload (payload : List UInt8) (topic : String) : Except String Unit :=
  if payload.length < 4 ∨ payload[0]? ≠ some 0x00 ∨ payload[1]? ≠ some 0x01 then
    .error ("payload for '" ++ topic ++ "' is not a CDR-LE buffer (expected the " ++
      "4-byte encapsulation header 00 01 00 00 produced by the message codecs)")
  else .ok ()

/-- `PubPublish_` behind the lookup of the publisher. -/
def pubPublish (topic : String) (payload : List UInt8) :
    Except MemoryFault (Option (List UInt8) × Except String Unit) :=
  match checkCdrPayload payload topic with
  | .error e => .ok (none, .error e)
  | .ok () =>
    (Writer.write iovLenBits allocated accepted payload).map (writeResult ("publish failed on '" ++ topic ++ "'"))

end Publish

/-- How a reader comes by a serdata that was written: it shares it with the writer, or builds its own from the
fragments or the scatter list that the bytes arrive in. -/
inductive Transport (d : List UInt8) : List UInt8 → Prop
  | shared : Transport d d
  | fragments {chain : List Fragment} {payload : List UInt8} (h : CarriesSample d chain)
      (hp : rawFromSer true chain d.length = .ok (some payload)) : Transport d payload
  | iov {iov : List (List UInt8)} {payload : List UInt8} (h : iov.flatten = d)
      (hp : rawFromSerIov true iov d.length = .ok (some payload)) : Transport d payload

section Model
variable (κ ι M V σ : Type)

/-- The C++ subscriptions are numbered by `κ`, the Python ones by `ι`. Values stand beside the bytes that carry
them; a sample that carries no message of the topic has none. -/
structure TopicState (κ ι M V σ : Type) where
  wire : List (List UInt8 × V)
  history : κ ⊕ ι → List (Sample × Option V)
  cpp : κ → SubscriptionState V σ
  python : ι → SubscriptionState M σ
  delivered : κ ⊕ ι → List V     -- the values of the samples taken so far

inductive TopicAction where
  | publish (v : V)
  | publishPython (m : M)
  | receive (k : κ ⊕ ι)
  | drop (k : κ ⊕ ι) (n : ℕ)
  | dispatch (k : κ)
  | dispatchPython (k : ι)

end Model

namespace TopicState
variable {κ ι M V σ : Type} [DecidableEq κ] [DecidableEq ι]

def new (user : σ) : TopicState κ ι M V σ := ⟨[], fun _ => [], fun _ => ⟨user, []⟩, fun _ => ⟨user, []⟩, fun _ => []⟩

def sent (s : TopicState κ ι M V σ) : List V := s.wire.map Prod.snd

/-- A serdata that reached `dds_writecdr`. -/
def written (s : TopicState κ ι M V σ) (d : Option (List UInt8)) (v : V) : TopicState κ ι M V σ :=
  { s with wire := s.wire ++ d.toList.map (fun b => (b, v)) }

def enqueue (s : TopicState κ ι M V σ) (k : κ ⊕ ι) (x : Sample × Option V) : TopicState κ ι M V σ :=
  { s with history := Function.update s.history k (s.history k ++ [x]) }

def setHistory (s : TopicState κ ι M V σ) (k : κ ⊕ ι) (h : List (Sample × Option V)) : TopicState κ ι M V σ :=
  { s with history := Function.update s.history k h }

/-- All but the last `left` samples of the history have been taken. -/
def taken (s : TopicState κ ι M V σ) (k : κ ⊕ ι) (left : ℕ) : TopicState κ ι M V σ :=
  let n := (s.history k).length - left
  { s.setHistory k ((s.history k).drop n) with
    delivered := Function.update s.delivered k (s.delivered k ++ ((s.history k).take n).filterMap Prod.snd) }

end TopicState

section Steps
variable {κ ι M σ : Type} [DecidableEq κ] [DecidableEq ι] (topic : Py.TopicType M) (iovLenBits : ℕ)
  (onMessage : κ → topic.schema.Val → σ → Except String Unit × σ) (onPython : ι → M → σ → Except String Unit × σ)

/-- Lengths fit their prefixes and the sample fits the 32-bit sizes of the protocol. -/
structure Publishable (ms : Members) (v : ms.Val) : Prop where
  fits : ms.Fits StringFits v
  size : (ms.encode v).length < 2^32 - 3

inductive TopicStep : TopicState κ ι M topic.schema.Val σ → TopicAction κ ι M topic.schema.Val →
    TopicState κ ι M topic.schema.Val σ → Prop
  | publish {s : TopicState κ ι M topic.schema.Val σ} (rosTopic : String) (allocated accepted : Bool)
      (v : topic.schema.Val) (hv : Publishable topic.schema v) (d : Option (List UInt8)) (result : Except String Unit)
      (h : Publisher.publish iovLenBits allocated accepted topic.schema rosTopic v = .ok (d, result)) :
      TopicStep s (.publish v) (s.written d v)
  | publishPython {s : TopicState κ ι M topic.schema.Val σ} (rosTopic : String) (allocated accepted : Bool)
      (m : M) (v : topic.schema.Val) (hm : topic.msg.toCpp m = some v) (hv : Publishable topic.schema v)
      (payload : List UInt8) (hp : topic.msg.serialize m = .ok payload) (d : Option (List UInt8))
      (result : Except String Unit) (h : pubPublish iovLenBits allocated accepted rosTopic payload = .ok (d, result)) :
      TopicStep s (.publishPython m) (s.written d v)
  | receive {s : TopicState κ ι M topic.schema.Val σ} (k : κ ⊕ ι) (d : List UInt8) (v : topic.schema.Val)
      (hd : (d, v) ∈ s.wire) (payload : List UInt8) (hp : Transport d payload) :
      TopicStep s (.receive k) (s.enqueue k (⟨payload, true⟩, some v))
  -- a sample without data, whatever its payload
  | notice {s : TopicState κ ι M topic.schema.Val σ} (k : κ ⊕ ι) (payload : List UInt8) (hlen : payload.length < 2^63) :
      TopicStep s (.receive k) (s.enqueue k (⟨payload, false⟩, none))
  -- bytes that somebody else wrote on the topic and that do not decode
  | malformed {s : TopicState κ ι M topic.schema.Val σ} (k : κ ⊕ ι) (b : List UInt8) (hlen : b.length < 2^63)
      (hb : ∀ v r, topic.schema.decode true b ≠ .ok (v, r)) :
      TopicStep s (.receive k) (s.enqueue k (⟨b, true⟩, none))
  -- a full history gives up a sample
  | drop {s : TopicState κ ι M topic.schema.Val σ} (k : κ ⊕ ι) (n : ℕ) :
      TopicStep s (.drop k n) (s.setHistory k ((s.history k).eraseIdx n))
  | dispatch {s : TopicState κ ι M topic.schema.Val σ} (k : κ)
      (t : TakeState (SubscriptionState topic.schema.Val σ)) (rest : List Sample) (e : Option Failure)
      (h : Subscription.dispatch topic.schema (onMessage k) ((s.history (.inl k)).map Prod.fst) (s.cpp k).user =
        (t, rest, e)) :
      TopicStep s (.dispatch k)
        { s.taken (.inl k) rest.length with
          cpp := Function.update s.cpp k ⟨t.state.user, (s.cpp k).invoked ++ t.state.invoked⟩ }
  | dispatchPython {s : TopicState κ ι M topic.schema.Val σ} (k : ι)
      (t : TakeState (Py.SubEntryState (SubscriptionState M σ))) (rest : List Sample) (e : Option Failure)
      (h : Py.SubEntry.dispatch (fun _ => false) (Py.deliver topic.msg (onPython k))
        ((s.history (.inr k)).map Prod.fst) ⟨(s.python k).user, []⟩ = (t, rest, e)) :
      TopicStep s (.dispatchPython k)
        { s.taken (.inr k) rest.length with
          python := Function.update s.python k
            ⟨t.state.user.user, (s.python k).invoked ++ t.state.user.invoked⟩ }

def topicSystem (user : σ) :
    System (TopicState κ ι M topic.schema.Val σ) (TopicAction κ ι M topic.schema.Val) where
  init s := s = .new user
  step := TopicStep topic iovLenBits onMessage onPython

end Steps

section Bytes

theorem rawResize_length (payload : List UInt8) : (rawResize payload).length % 4 = 0 ∧
    (rawResize payload).length < payload.length + 4 := by
  have hpad := rawPad_eq payload.length
  rw [rawResize, List.length_append, List.length_replicate]
  omega

/-- A serdata that is built from a serdata has the same payload. -/
theorem rawResize_idem (payload : List UInt8) : rawResize (rawResize payload) = rawResize payload := by
  have hlen := (rawResize_length payload).1
  have hpad : rawPad (rawResize payload).length = 0 := by
    rw [rawPad_eq]
    omega
  rw [rawResize, hpad, List.replicate_zero, List.append_nil]

theorem Transport.eq {payload d b : List UInt8} (hd : d = rawResize payload) (hsize : payload.length < 2^32 - 3)
    (h : Transport d b) : b = d := by
  have hlen := (rawResize_length payload).2
  have hsame : rawResize d = d := by rw [hd, rawResize_idem]
  have hfits : d.length + 4 ≤ 2^64 := by
    rw [hd]
    omega
  cases h with
  | shared => rfl
  | fragments hc hp =>
    rw [rawFromSer_eq hc hfits, if_pos rfl, hsame] at hp
    exact (Option.some.inj (Except.ok.inj hp)).symm
  | iov hc hp =>
    rw [rawFromSerIov_eq hc hfits, if_pos rfl, hsame] at hp
    exact (Option.some.inj (Except.ok.inj hp)).symm

theorem rawSerdataFromBlob_some {iovLenBits : ℕ} {allocated : Bool} {blob d : List UInt8}
    (hsize : blob.length + 4 ≤ 2^64) (h : rawSerdataFromBlob iovLenBits allocated blob = .ok (some d)) :
    d = rawResize blob := by
  unfold rawSerdataFromBlob at h
  split at h
  · cases h
  · rw [rawFromSerIov_eq List.flatten_singleton hsize] at h
    cases allocated with
    | false => cases h
    | true => exact (Option.some.inj (Except.ok.inj h)).symm

theorem write_serdata {iovLenBits : ℕ} {allocated accepted : Bool} {payload d : List UInt8} {ok : Bool}
    (hsize : payload.length + 4 ≤ 2^64)
    (h : Writer.write iovLenBits allocated accepted payload = .ok (some d, ok)) : d = rawResize payload := by
  unfold Writer.write at h
  cases hblob : rawSerdataFromBlob iovLenBits allocated payload with
  | error e =>
    rw [hblob] at h
    cases h
  | ok o =>
    cases o with
    | none =>
      rw [hblob] at h
      cases h
    | some d' =>
      rw [hblob] at h
      obtain rfl : d' = d := Option.some.inj (Prod.mk.inj (Except.ok.inj h)).1
      exact rawSerdataFromBlob_some hsize hblob

theorem write_of_result {x : Except MemoryFault (Option (List UInt8) × Bool)} {message : String}
    {d : Option (List UInt8)} {result : Except String Unit} (h : x.map (writeResult message) = .ok (d, result)) :
    ∃ ok, x = .ok (d, ok) := by
  cases x with
  | error e => cases h
  | ok r =>
    obtain rfl : r.1 = d := (Prod.mk.inj (Except.ok.inj h)).1
    exact ⟨r.2, rfl⟩

theorem publish_serdata {iovLenBits : ℕ} {allocated accepted : Bool} {ms : Members} {rosTopic : String} {v : ms.Val}
    {d : List UInt8} {result : Except String Unit} (hv : Publishable ms v)
    (h : Publisher.publish iovLenBits allocated accepted ms rosTopic v = .ok (some d, result)) :
    d = rawResize (ms.encode v) := by
  have hsize := hv.size
  obtain ⟨ok, hwrite⟩ := write_of_result h
  exact write_serdata (by omega) hwrite

theorem pubPublish_serdata {iovLenBits : ℕ} {allocated accepted : Bool} {topic : String} {payload d : List UInt8}
    {result : Except String Unit} (hsize : payload.length + 4 ≤ 2^64)
    (h : pubPublish iovLenBits allocated accepted topic payload = .ok (some d, result)) : d = rawResize payload := by
  unfold pubPublish at h
  cases hcheck : checkCdrPayload payload topic with
  | error e =>
    rw [hcheck] at h
    cases h
  | ok u =>
    rw [hcheck] at h
    obtain ⟨ok, hwrite⟩ := write_of_result h
    exact write_serdata hsize hwrite

end Bytes

section Values
variable {M : Type} (topic : Py.TopicType M)

/-- What a Python subscription makes of a value. -/
def Py.TopicType.ofCpp (v : topic.schema.Val) : Option M := (topic.msg.fromCdr (topic.schema.encode v)).toOption

variable {topic}

theorem decode_padded {v : topic.schema.Val} (hv : Publishable topic.schema v) : ∃ r,
    topic.schema.decode true (rawResize (topic.schema.encode v)) = .ok (v, r) := by
  have hsize := hv.size
  have hlen := (rawResize_length (topic.schema.encode v)).2
  exact ⟨_, topic.schema.decode_encode topic.elements v hv.fits _ (by rw [← rawResize]; omega)⟩

theorem toOption_eq_some {ε α : Type} {x : Except ε α} {a : α} : x.toOption = some a ↔ x = .ok a := by
  cases x <;> simp [Except.toOption]

theorem fromCdr_of_decode {b : List UInt8} {v : topic.schema.Val} {r : CdrReader} (hlen : b.length < 2^63)
    (hdec : topic.schema.decode true b = .ok (v, r)) (m : M) :
    (topic.msg.fromCdr b).toOption = some m ↔ topic.msg.toCpp m = some v := by
  have hiff := (topic.agree b hlen).1 m
  rw [hdec] at hiff
  rw [toOption_eq_some, hiff]
  constructor
  · rintro ⟨v', r', h, hm⟩
    cases h
    exact hm
  · exact fun hm => ⟨v, r, rfl, hm⟩

theorem ofCpp_eq_some {v : topic.schema.Val} (hv : Publishable topic.schema v) (m : M) :
    topic.ofCpp v = some m ↔ topic.msg.toCpp m = some v := by
  have hsize := hv.size
  have hdec := topic.schema.decode_encode topic.elements v hv.fits [] (by rw [List.append_nil]; omega)
  rw [List.append_nil] at hdec
  exact fromCdr_of_decode (by omega) hdec m

theorem decodeWith_deserialize (ms : Members) (b : List UInt8) :
    decodeWith (ms.deserialize ms.zero) b = (ms.decode true b).map Prod.fst := by
  unfold decodeWith Members.decode Members.decodeInto
  cases CdrReader.new b <;> rfl

/-- The sample stands for the value beside it, which is one of those sent. -/
inductive Genuine (topic : Py.TopicType M) (sent : List topic.schema.Val) : Sample × Option topic.schema.Val → Prop
  | message {b : List UInt8} {v : topic.schema.Val} {r : CdrReader} (hlen : b.length < 2^63)
      (hdec : topic.schema.decode true b = .ok (v, r)) (hv : Publishable topic.schema v) (hsent : v ∈ sent) :
      Genuine topic sent (⟨b, true⟩, some v)
  | notice {b : List UInt8} (hlen : b.length < 2^63) : Genuine topic sent (⟨b, false⟩, none)
  | malformed {b : List UInt8} (hlen : b.length < 2^63) (hbad : ∀ v r, topic.schema.decode true b ≠ .ok (v, r)) :
      Genuine topic sent (⟨b, true⟩, none)

namespace Genuine
variable {sent sent' : List topic.schema.Val} {x : Sample × Option topic.schema.Val}
  {history : List (Sample × Option topic.schema.Val)}

theorem mono (h : Genuine topic sent x) (hsub : ∀ v ∈ sent, v ∈ sent') : Genuine topic sent' x := by
  cases h with
  | message hlen hdec hv hsent => exact .message hlen hdec hv (hsub _ hsent)
  | notice hlen => exact .notice hlen
  | malformed hlen hbad => exact .malformed hlen hbad

theorem length_lt (h : Genuine topic sent x) : x.1.payload.length < 2^63 := by
  cases h <;> assumption

theorem mem_sent (h : ∀ x ∈ history, Genuine topic sent x) : ∀ v ∈ history.filterMap Prod.snd, v ∈ sent := by
  intro v hv
  obtain ⟨x, hx, hxv⟩ := List.mem_filterMap.mp hv
  cases h x hx with
  | message hlen hdec hp hsent =>
    cases hxv
    exact hsent
  | notice hlen => cases hxv
  | malformed hlen hbad => cases hxv

/-- The C++ decoder finds the values that stand beside the samples. -/
theorem decoded_eq (h : ∀ x ∈ history, Genuine topic sent x) :
    decoded (topic.schema.deserialize topic.schema.zero) (validPayloads (history.map Prod.fst)) =
      history.filterMap Prod.snd := by
  induction history with
  | nil => rfl
  | cons x history ih =>
    have hrest := ih (fun y hy => h y (List.mem_cons_of_mem _ hy))
    unfold decoded validPayloads at hrest ⊢
    cases h x List.mem_cons_self with
    | message hlen hdec hv hsent =>
      rw [List.map_cons, List.filter_cons_of_pos rfl, List.map_cons, List.filterMap_cons, decodeWith_deserialize,
        hdec, List.filterMap_cons, hrest]
      rfl
    | notice hlen =>
      rw [List.map_cons, List.filter_cons_of_neg Bool.false_ne_true, List.filterMap_cons, hrest]
    | @malformed b hlen hbad =>
      have hnone : (decodeWith (topic.schema.deserialize topic.schema.zero) b).toOption = none := by
        rw [decodeWith_deserialize]
        cases hdec : topic.schema.decode true b with
        | error e => rfl
        | ok vr => exact absurd hdec (hbad vr.1 vr.2)
      rw [List.map_cons, List.filter_cons_of_pos rfl, List.map_cons, List.filterMap_cons, hnone,
        List.filterMap_cons, hrest]

/-- The Python decoder finds the messages of those that have one. -/
theorem received_eq (h : ∀ x ∈ history, Genuine topic sent x) :
    Py.received topic.msg (validPayloads (history.map Prod.fst)) =
      (history.filterMap Prod.snd).filterMap topic.ofCpp := by
  induction history with
  | nil => rfl
  | cons x history ih =>
    have hrest := ih (fun y hy => h y (List.mem_cons_of_mem _ hy))
    unfold Py.received validPayloads at hrest ⊢
    cases h x List.mem_cons_self with
    | @message b v r hlen hdec hv hsent =>
      have hsame : (topic.msg.fromCdr b).toOption = topic.ofCpp v := by
        apply Option.ext
        intro m
        rw [fromCdr_of_decode hlen hdec, ofCpp_eq_some hv]
      rw [List.map_cons, List.filter_cons_of_pos rfl, List.map_cons, List.filterMap_cons, hsame, hrest,
        List.filterMap_cons]
      exact (List.filterMap_cons ..).symm
    | notice hlen =>
      rw [List.map_cons, List.filter_cons_of_neg Bool.false_ne_true, List.filterMap_cons, hrest]
    | @malformed b hlen hbad =>
      have hnone : (topic.msg.fromCdr b).toOption = none := by
        cases hcdr : topic.msg.fromCdr b with
        | error e => rfl
        | ok m =>
          obtain ⟨v, r, hdec, -⟩ := ((topic.agree b hlen).1 m).mp hcdr
          exact absurd hdec (hbad v r)
      rw [List.map_cons, List.filter_cons_of_pos rfl, List.map_cons, List.filterMap_cons, hnone,
        List.filterMap_cons, hrest]

end Genuine

end Values

section Invariant
variable {κ ι M σ : Type} [DecidableEq κ] [DecidableEq ι] {topic : Py.TopicType M} {iovLenBits : ℕ}
  {onMessage : κ → topic.schema.Val → σ → Except String Unit × σ} {onPython : ι → M → σ → Except String Unit × σ}
  {user : σ} {s s' : TopicState κ ι M topic.schema.Val σ} {a : TopicAction κ ι M topic.schema.Val}

/-- The wire carries padded encodings, the histories hold what came over it, and the callbacks have run on the
values delivered, one after the other. -/
structure TopicState.Sound (onMessage : κ → topic.schema.Val → σ → Except String Unit × σ)
    (onPython : ι → M → σ → Except String Unit × σ) (user : σ) (s : TopicState κ ι M topic.schema.Val σ) : Prop where
  wire : ∀ x ∈ s.wire, x.1 = rawResize (topic.schema.encode x.2) ∧ Publishable topic.schema x.2
  history : ∀ k, ∀ x ∈ s.history k, Genuine topic s.sent x
  cpp : ∀ k, s.cpp k = ⟨(s.delivered (.inl k)).foldl (fun u v => (onMessage k v u).2) user, s.delivered (.inl k)⟩
  python : ∀ k, s.python k = ⟨((s.delivered (.inr k)).filterMap topic.ofCpp).foldl (fun u m => (onPython k m u).2) user,
    (s.delivered (.inr k)).filterMap topic.ofCpp⟩
  delivered : ∀ k, ∀ v ∈ s.delivered k, v ∈ s.sent

namespace TopicState.Sound

omit [DecidableEq κ] [DecidableEq ι] in
theorem written (hi : s.Sound onMessage onPython user) {d : Option (List UInt8)} {v : topic.schema.Val}
    (hv : Publishable topic.schema v) (hd : ∀ b, d = some b → b = rawResize (topic.schema.encode v)) :
    (s.written d v).Sound onMessage onPython user := by
  have hsub : ∀ u ∈ s.sent, u ∈ (s.written d v).sent := by
    intro u hu
    obtain ⟨x, hx, rfl⟩ := List.mem_map.mp hu
    exact List.mem_map_of_mem (List.mem_append_left _ hx)
  refine ⟨?_, fun k x hx => (hi.history k x hx).mono hsub, hi.cpp, hi.python, fun k u hu => hsub u (hi.delivered k u hu)⟩
  intro x hx
  rcases List.mem_append.mp hx with hx | hx
  · exact hi.wire x hx
  · obtain ⟨b, hb, rfl⟩ := List.mem_map.mp hx
    exact ⟨hd b (Option.mem_toList.mp hb), hv⟩

theorem setHistory (hi : s.Sound onMessage onPython user) (k : κ ⊕ ι) {h : List (Sample × Option topic.schema.Val)}
    (hh : ∀ x ∈ h, Genuine topic s.sent x) : (s.setHistory k h).Sound onMessage onPython user := by
  refine ⟨hi.wire, ?_, hi.cpp, hi.python, hi.delivered⟩
  intro k' x hx
  by_cases hk : k' = k
  · subst hk
    change x ∈ Function.update s.history k' h k' at hx
    rw [Function.update_self] at hx
    exact hh x hx
  · change x ∈ Function.update s.history k h k' at hx
    rw [Function.update_of_ne hk] at hx
    exact hi.history k' x hx

theorem enqueue (hi : s.Sound onMessage onPython user) (k : κ ⊕ ι) {x : Sample × Option topic.schema.Val}
    (hx : Genuine topic s.sent x) : (s.enqueue k x).Sound onMessage onPython user := by
  refine hi.setHistory k (fun y hy => ?_)
  rcases List.mem_append.mp hy with hy | hy
  · exact hi.history k y hy
  · rw [List.mem_singleton.mp hy]
    exact hx

/-- The serdata a reader holds decodes to the value that was written. -/
theorem receive (hi : s.Sound onMessage onPython user) (k : κ ⊕ ι) {d payload : List UInt8}
    {v : topic.schema.Val} (hd : (d, v) ∈ s.wire) (hp : Transport d payload) :
    (s.enqueue k (⟨payload, true⟩, some v)).Sound onMessage onPython user := by
  obtain ⟨heq, hv⟩ := hi.wire (d, v) hd
  have hpad := (rawResize_length (topic.schema.encode v)).2
  have hsize : (topic.schema.encode v).length < 2^32 - 3 := hv.size
  obtain ⟨r, hdec⟩ := decode_padded hv
  obtain rfl : payload = d := hp.eq heq hv.size
  rw [show payload = rawResize (topic.schema.encode v) from heq]
  exact hi.enqueue k (.message (by omega) hdec hv (List.mem_map_of_mem hd))

/-- Everything in the history is taken. -/
theorem taken_zero (s : TopicState κ ι M topic.schema.Val σ) (k : κ ⊕ ι) : s.taken k 0 =
    { s.setHistory k [] with
      delivered := Function.update s.delivered k (s.delivered k ++ (s.history k).filterMap Prod.snd) } := by
  rw [TopicState.taken, Nat.sub_zero, List.drop_length, List.take_length]

theorem delivered_self (s : TopicState κ ι M topic.schema.Val σ) (k : κ ⊕ ι) :
    (s.taken k 0).delivered k = s.delivered k ++ (s.history k).filterMap Prod.snd := by
  rw [taken_zero]
  exact Function.update_self ..

theorem delivered_ne (s : TopicState κ ι M topic.schema.Val σ) {k k' : κ ⊕ ι} (h : k' ≠ k) :
    (s.taken k 0).delivered k' = s.delivered k' := by
  rw [taken_zero]
  exact Function.update_of_ne h ..

omit [DecidableEq κ] [DecidableEq ι] in
theorem genuine_lt (hi : s.Sound onMessage onPython user) (k : κ ⊕ ι) :
    ∀ x ∈ (s.history k).map Prod.fst, x.payload.length < 2^63 := by
  intro x hx
  obtain ⟨y, hy, rfl⟩ := List.mem_map.mp hx
  exact (hi.history k y hy).length_lt

omit [DecidableEq κ] [DecidableEq ι] in
/-- A C++ subscription is invoked with the values in its history. -/
theorem subscription_dispatch (hi : s.Sound onMessage onPython user) (k : κ)
    (callback : topic.schema.Val → σ → Except String Unit × σ) (u : σ)
    {t : TakeState (SubscriptionState topic.schema.Val σ)} {rest : List Sample} {e : Option Failure}
    (h : Subscription.dispatch topic.schema callback ((s.history (.inl k)).map Prod.fst) u = (t, rest, e)) :
    rest = [] ∧ t.state = ⟨((s.history (.inl k)).filterMap Prod.snd).foldl (fun u v => (callback v u).2) u,
      (s.history (.inl k)).filterMap Prod.snd⟩ := by
  have hrun := takeAll_contained (topic.schema.deserialize_modest topic.arrays topic.schema.zero)
    (Subscription.onMessage callback) (hi.genuine_lt (.inl k)) ⟨u, []⟩
  have hboth := h.symm.trans hrun
  obtain ⟨rfl, hrest⟩ := Prod.mk.inj hboth
  refine ⟨(Prod.mk.inj hrest).1, ?_⟩
  dsimp only
  rw [foldl_onMessage, List.nil_append, Genuine.decoded_eq (hi.history (.inl k))]

omit [DecidableEq κ] [DecidableEq ι] in
/-- A Python one with the messages of those values that have one. -/
theorem python_dispatch (hi : s.Sound onMessage onPython user) (k : ι) (callback : M → σ → Except String Unit × σ)
    (u : σ) {t : TakeState (Py.SubEntryState (SubscriptionState M σ))} {rest : List Sample} {e : Option Failure}
    (h : Py.SubEntry.dispatch (fun _ => false) (Py.deliver topic.msg callback)
      ((s.history (.inr k)).map Prod.fst) ⟨u, []⟩ = (t, rest, e)) :
    rest = [] ∧ t.state.user =
      ⟨(((s.history (.inr k)).filterMap Prod.snd).filterMap topic.ofCpp).foldl (fun u m => (callback m u).2) u,
        ((s.history (.inr k)).filterMap Prod.snd).filterMap topic.ofCpp⟩ := by
  let queue := (s.history (.inr k)).map Prod.fst
  have hrun := @Py.dispatch_open _ (fun _ => false) (Py.deliver topic.msg callback) queue ⟨u, []⟩ rfl
  have hboth := h.symm.trans hrun
  obtain ⟨rfl, hrest⟩ := Prod.mk.inj hboth
  refine ⟨(Prod.mk.inj hrest).1, ?_⟩
  -- nobody closes the subscription, so every payload is passed on
  obtain ⟨n, hn, -, hat, -, huser⟩ := @Py.run_spec _ (fun _ => false) (Py.deliver topic.msg callback)
    (fun _ h => h) (validPayloads queue) ⟨⟨u, []⟩, 1, []⟩
  have hall : n = (validPayloads queue).length := by
    by_contra hne
    exact absurd (hat (lt_of_le_of_ne hn hne)) Bool.false_ne_true
  rw [hall, List.take_length, Py.foldl_deliver] at huser
  refine huser.trans ?_
  rw [List.nil_append, Genuine.received_eq (hi.history (.inr k))]

/-- What remains to be said of a dispatch, in either language. -/
theorem taken (hi : s.Sound onMessage onPython user) (k : κ ⊕ ι) {cpp : κ → SubscriptionState topic.schema.Val σ}
    {python : ι → SubscriptionState M σ}
    (hcpp : ∀ j, cpp j = ⟨((s.taken k 0).delivered (.inl j)).foldl (fun u v => (onMessage j v u).2) user,
      (s.taken k 0).delivered (.inl j)⟩)
    (hpython : ∀ j, python j =
      ⟨(((s.taken k 0).delivered (.inr j)).filterMap topic.ofCpp).foldl (fun u m => (onPython j m u).2) user,
        ((s.taken k 0).delivered (.inr j)).filterMap topic.ofCpp⟩) :
    TopicState.Sound onMessage onPython user { s.taken k 0 with cpp := cpp, python := python } := by
  have hempty := hi.setHistory k (h := []) (fun x hx => absurd hx List.not_mem_nil)
  rw [taken_zero] at hcpp hpython ⊢
  refine ⟨hi.wire, hempty.history, hcpp, hpython, ?_⟩
  intro k' v hv
  by_cases hk : k' = k
  · subst hk
    change v ∈ Function.update s.delivered k' (s.delivered k' ++ (s.history k').filterMap Prod.snd) k' at hv
    rw [Function.update_self] at hv
    rcases List.mem_append.mp hv with hv | hv
    · exact hi.delivered k' v hv
    · exact Genuine.mem_sent (hi.history k') v hv
  · change v ∈ Function.update s.delivered k _ k' at hv
    rw [Function.update_of_ne hk] at hv
    exact hi.delivered k' v hv

end TopicState.Sound

open TopicState.Sound in
theorem topicStep_sound (hi : s.Sound onMessage onPython user)
    (hs : TopicStep topic iovLenBits onMessage onPython s a s') : s'.Sound onMessage onPython user := by
  cases hs with
  | publish rosTopic allocated accepted v hv d result h =>
    refine hi.written hv (fun b hb => ?_)
    subst hb
    exact publish_serdata hv h
  | publishPython rosTopic allocated accepted m v hm hv payload hp d result h =>
    have hsize := hv.size
    -- Python serializes to what C++ would have
    obtain rfl : payload = topic.schema.encode v := Except.ok.inj (hp.symm.trans (topic.writes m v hm hv.fits))
    refine hi.written hv (fun b hb => ?_)
    subst hb
    exact pubPublish_serdata (by omega) h
  | receive k d v hd payload hp => exact hi.receive k hd hp
  | notice k payload hlen => exact hi.enqueue k (.notice hlen)
  | malformed k b hlen hb => exact hi.enqueue k (.malformed hlen hb)
  | drop k n => exact hi.setHistory k (fun x hx => hi.history k x (List.mem_of_mem_eraseIdx hx))
  | dispatch k t rest e h =>
    obtain ⟨rfl, hstate⟩ := hi.subscription_dispatch k (onMessage k) _ h
    refine hi.taken (.inl k) (fun j => ?_) (fun j => ?_)
    · by_cases hj : j = k
      · subst hj
        rw [Function.update_self, delivered_self, hstate, hi.cpp, List.foldl_append]
      · rw [Function.update_of_ne hj, delivered_ne s (fun h => hj (Sum.inl.inj h))]
        exact hi.cpp j
    · rw [delivered_ne s Sum.inr_ne_inl]
      exact hi.python j
  | dispatchPython k t rest e h =>
    obtain ⟨rfl, hstate⟩ := hi.python_dispatch k (onPython k) _ h
    refine hi.taken (.inr k) (fun j => ?_) (fun j => ?_)
    · rw [delivered_ne s Sum.inl_ne_inr]
      exact hi.cpp j
    · by_cases hj : j = k
      · subst hj
        rw [Function.update_self, delivered_self, List.filterMap_append, hstate, hi.python, List.foldl_append]
      · rw [Function.update_of_ne hj, delivered_ne s (fun h => hj (Sum.inr.inj h))]
        exact hi.python j

theorem topic_sound (h : (topicSystem topic iovLenBits onMessage onPython user).Reachable s) :
    s.Sound onMessage onPython user := by
  refine h.invariant (TopicState.Sound onMessage onPython user) ?_ (fun _ _ _ _ hi hs => topicStep_sound hi hs)
  rintro s rfl
  constructor <;> simp [TopicState.new]

/-- In every reachable state each subscription has been invoked with exactly the values delivered to it, in
order, and the state of its callback is what these calls made of it; all of them were published on the topic,
from either language; and a dispatch leaves nothing of the history undelivered. A Python subscription sees a
value as the one message that stands for it, if any. -/
theorem topic_delivery (user : σ) (h : (topicSystem topic iovLenBits onMessage onPython user).Reachable s) :
    (∀ k, (s.cpp k).invoked = s.delivered (.inl k) ∧
      (s.cpp k).user = (s.cpp k).invoked.foldl (fun u v => (onMessage k v u).2) user) ∧
    (∀ k, (s.python k).invoked = (s.delivered (.inr k)).filterMap topic.ofCpp ∧
      (s.python k).user = (s.python k).invoked.foldl (fun u m => (onPython k m u).2) user) ∧
    (∀ k, ∀ v ∈ s.delivered k, v ∈ s.sent) ∧
    (∀ v ∈ s.sent, ∀ m, topic.ofCpp v = some m ↔ topic.msg.toCpp m = some v) ∧
    (∀ k s', TopicStep topic iovLenBits onMessage onPython s (.dispatch k) s' →
      s'.history (.inl k) = [] ∧
        s'.delivered (.inl k) = s.delivered (.inl k) ++ (s.history (.inl k)).filterMap Prod.snd) ∧
    ∀ k s', TopicStep topic iovLenBits onMessage onPython s (.dispatchPython k) s' →
      s'.history (.inr k) = [] ∧
        s'.delivered (.inr k) = s.delivered (.inr k) ++ (s.history (.inr k)).filterMap Prod.snd := by
  have hi := topic_sound h
  have hempty : ∀ k, (s.taken k 0).history k = [] := by
    intro k
    rw [TopicState.Sound.taken_zero]
    exact Function.update_self ..
  refine ⟨fun k => ?_, fun k => ?_, hi.delivered, ?_, ?_, ?_⟩
  · rw [hi.cpp k]
    exact ⟨rfl, rfl⟩
  · rw [hi.python k]
    exact ⟨rfl, rfl⟩
  · intro v hv m
    obtain ⟨x, hx, rfl⟩ := List.mem_map.mp hv
    exact ofCpp_eq_some (hi.wire x hx).2 m
  · intro k s' hs
    cases hs with
    | dispatch _ t rest e h =>
      obtain ⟨rfl, -⟩ := hi.subscription_dispatch k (onMessage k) _ h
      exact ⟨hempty _, TopicState.Sound.delivered_self s _⟩
  · intro k s' hs
    cases hs with
    | dispatchPython _ t rest e h =>
      obtain ⟨rfl, -⟩ := hi.python_dispatch k (onPython k) _ h
      exact ⟨hempty _, TopicState.Sound.delivered_self s _⟩

end Invariant

section Run

/-- The serdata of the string `Hi`, in two fragments. -/
def hiSerdata : List UInt8 := [0, 1, 0, 0, 3, 0, 0, 0, 0x48, 0x69, 0, 0]

def hiFragments : List Fragment := [⟨0, 8, [0, 1, 0, 0, 3, 0, 0, 0]⟩, ⟨8, 12, [0x48, 0x69, 0, 0]⟩]

theorem hiFragments_carry : CarriesSample hiSerdata hiFragments where
  bytes := by decide
  complete := by decide
  no_gap := by
    intro before f after h hlt
    rcases before with _ | ⟨a, _ | ⟨b, before⟩⟩
    · cases h
      decide
    · cases h
      decide
    · simp [hiFragments] at h

def hiValue : Py.stringTopic.schema.Val :=
  show stringSchema.Val from ([0x48, 0x69], ())

theorem hiValue_publishable : Publishable Py.stringTopic.schema hiValue where
  fits := ⟨(by decide : 3 < 2^32), trivial⟩
  size := by decide

theorem hiValue_published :
    Publisher.publish 64 true true Py.stringTopic.schema "chatter" hiValue = .ok (some hiSerdata, .ok ()) := by
  have hblob : rawSerdataFromBlob 64 true (Py.stringTopic.schema.encode hiValue) = .ok (some hiSerdata) := by rfl
  rw [Publisher.publish, Writer.write, hblob]
  rfl

/-- Published from C++, fragmented on the way, and received in Python. -/
theorem topic_delivery_hi :
    ∃ s : TopicState Unit Unit Py.StringMsg Py.stringTopic.schema.Val ℕ,
      (topicSystem Py.stringTopic 64 (fun _ _ n => (.ok (), n)) (fun _ _ n => (.ok (), n + 1)) 0).Reachable s ∧
      s.delivered (.inr ()) = [hiValue] ∧ (s.python ()).invoked = [hiValue].filterMap Py.stringTopic.ofCpp ∧
      (s.python ()).user = (s.python ()).invoked.length := by
  have h0 : (topicSystem (κ := Unit) (ι := Unit) Py.stringTopic 64 (fun _ _ n => (.ok (), n))
      (fun _ _ n => (.ok (), n + 1)) 0).Reachable (.new 0) := .init rfl
  have h1 := h0.step (.publish "chatter" true true hiValue hiValue_publishable (some hiSerdata) (.ok ()) hiValue_published)
  have h2 := h1.step (.receive (.inr ()) hiSerdata hiValue (List.mem_singleton_self _) hiSerdata
    (.fragments hiFragments_carry rfl))
  rcases hrun : Py.SubEntry.dispatch (fun _ => false) (Py.deliver Py.stringTopic.msg (fun _ n => (.ok (), n + 1)))
    [⟨hiSerdata, true⟩] ⟨0, []⟩ with ⟨t, rest, e⟩
  have hdelivered := ((topic_delivery 0 h2).2.2.2.2.2 () _ (.dispatchPython () t rest e hrun)).2
  have h3 := h2.step (.dispatchPython () t rest e hrun)
  obtain ⟨hinvoked, huser⟩ := (topic_delivery 0 h3).2.1 ()
  rw [hdelivered] at hinvoked
  exact ⟨_, h3, hdelivered, hinvoked, huser.trans (by rw [List.foldl_add_const]; simp)⟩

end Run

end Rcllite
