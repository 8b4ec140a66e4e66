import Rcllite.EntityDispatch
import Rcllite.PyAgreement

/-! A subscription made from Python: `SubEntry::dispatch` on the C++ side hands each payload to the function
that `make_trampoline` wraps around the user's callback. -/
namespace Rcllite.Py
open Interaction

/-- A class that topics can have, with what its endpoints rely on. -/
structure TopicType (M : Type) where
  schema : Members
  msg : Message M schema
  elements : schema.SeqElementsNonempty
  arrays : schema.ArraysBelow (2^62)
  writes : ∀ m v, msg.toCpp m = some v → schema.Fits StringFits v → msg.serialize m = .ok (schema.encode v)
  agree : DecodersAgree msg

theorem serialize_of_writes {M : Type} {schema : Members} {msg : Message M schema} {m : M} {v : schema.Val}
    (h : WritesSame (msg.write m) (schema.serialize v)) : msg.serialize m = .ok (schema.encode v) := by
  have hnew : msg.write m CdrWriter.new = .ok ⟨(schema.serialize v Rcllite.CdrWriter.new).buf⟩ :=
    h Rcllite.CdrWriter.new
  rw [Message.serialize, hnew]
  rfl

def emptyTopic : TopicType Empty where
  schema := emptySchema
  msg := emptyMessage
  elements := trivial
  arrays := trivial
  writes _ _ _ _ := rfl
  agree := emptyMessage_agree

def stringTopic : TopicType StringMsg where
  schema := stringSchema
  msg := stringMessage
  elements := by simp [stringSchema, Members.SeqElementsNonempty, RosType.SeqElementsNonempty]
  arrays := by simp [stringSchema, Members.ArraysBelow, RosType.ArraysBelow]
  writes _ _ h hf := serialize_of_writes (StringMsg.writes_same h hf)
  agree := stringMessage_agree

def poseStampedTopic : TopicType PoseStamped where
  schema := PoseStamped.schema
  msg := poseStampedMessage
  elements := by simp [PoseStamped.schema, Header.schema, Time.schema, Pose.schema, Point.schema, Quaternion.schema,
    Members.SeqElementsNonempty, RosType.SeqElementsNonempty]
  arrays := by simp [PoseStamped.schema, Header.schema, Time.schema, Pose.schema, Point.schema, Quaternion.schema,
    Members.ArraysBelow, RosType.ArraysBelow]
  writes _ _ h hf := serialize_of_writes (PoseStamped.writes_same h hf)
  agree := poseStampedMessage_agree

def transformStampedTopic : TopicType TransformStamped where
  schema := TransformStamped.schema
  msg := transformStampedMessage
  elements := by simp [TransformStamped.schema, Header.schema, Time.schema, Transform.schema, Point.schema,
    Quaternion.schema, Members.SeqElementsNonempty, RosType.SeqElementsNonempty]
  arrays := by simp [TransformStamped.schema, Header.schema, Time.schema, Transform.schema, Point.schema,
    Quaternion.schema, Members.ArraysBelow, RosType.ArraysBelow]
  writes _ _ h hf := serialize_of_writes (TransformStamped.writes_same h hf)
  agree := transformStampedMessage_agree

def imageTopic : TopicType Image where
  schema := Image.schema
  msg := imageMessage
  elements := by simp [Image.schema, Header.schema, Time.schema, Members.SeqElementsNonempty,
    RosType.SeqElementsNonempty, RosType.ElementNonempty]
  arrays := by simp [Image.schema, Header.schema, Time.schema, Members.ArraysBelow, RosType.ArraysBelow]
  writes _ _ h hf := serialize_of_writes (Image.writes_same h hf)
  agree := imageMessage_agree

def cameraInfoTopic : TopicType CameraInfo where
  schema := CameraInfo.schema
  msg := cameraInfoMessage
  elements := by simp [CameraInfo.schema, Header.schema, Time.schema, RegionOfInterest.schema,
    Members.SeqElementsNonempty, RosType.SeqElementsNonempty, RosType.ElementNonempty]
  arrays := by simp [CameraInfo.schema, Header.schema, Time.schema, RegionOfInterest.schema, Members.ArraysBelow,
    RosType.ArraysBelow, Prim.sizeof]
  writes _ _ h hf := serialize_of_writes (CameraInfo.writes_same h hf)
  agree := cameraInfoMessage_agree

variable {σ : Type}

section Entry

/-- What one call of `SubEntry::dispatch` does: the state behind the callback, how often `closed` was loaded,
and the payloads that were passed on. -/
structure SubEntryState (σ : Type) where
  user : σ
  loads : ℕ
  passed : List (List UInt8)

/-- The lambda given to `take`. The `n`-th load of the flag finds `closed n`; whatever the callback raises is
logged. -/
def SubEntry.onSample (closed : ℕ → Bool) (callback : List UInt8 → σ → Except String Unit × σ) (payload : List UInt8)
    (s : SubEntryState σ) : SubEntryState σ × Option Failure :=
  if closed s.loads then ({ s with loads := s.loads + 1 }, none)
  else (⟨(callback payload s.user).2, s.loads + 1, s.passed ++ [payload]⟩, none)

def SubEntry.dispatch (closed : ℕ → Bool) (callback : List UInt8 → σ → Except String Unit × σ) (queue : List Sample)
    (user : σ) : TakeState (SubEntryState σ) × List Sample × Option Failure :=
  if closed 0 then (⟨⟨user, 1, []⟩, []⟩, queue, none)
  else takeAll (SubEntry.onSample closed callback) queue ⟨⟨user, 1, []⟩, []⟩

variable (closed : ℕ → Bool) (callback : List UInt8 → σ → Except String Unit × σ)

theorem onSample_quiet (payload : List UInt8) (s : SubEntryState σ) :
    (SubEntry.onSample closed callback payload s).2 = none := by
  unfold SubEntry.onSample
  split_ifs <;> rfl

/-- The whole loop over the payloads. -/
def SubEntry.run (payloads : List (List UInt8)) (s : SubEntryState σ) : SubEntryState σ :=
  payloads.foldl (fun s b => (SubEntry.onSample closed callback b s).1) s

variable {closed}

/-- Once closed, nothing is passed on. -/
theorem run_closed (hclosed : ∀ n, closed n = true → closed (n + 1) = true) (payloads : List (List UInt8))
    (s : SubEntryState σ) (h : closed s.loads = true) :
    (SubEntry.run closed callback payloads s).user = s.user ∧
      (SubEntry.run closed callback payloads s).passed = s.passed := by
  induction payloads generalizing s with
  | nil => exact ⟨rfl, rfl⟩
  | cons b payloads ih =>
    have hstep : (SubEntry.onSample closed callback b s).1 = { s with loads := s.loads + 1 } := by
      rw [SubEntry.onSample, if_pos h]
    rw [SubEntry.run, List.foldl_cons, hstep]
    exact ih { s with loads := s.loads + 1 } (hclosed _ h)

/-- The payloads in front of the first load that finds the flag set, and no others, reach the callback. -/
theorem run_spec (hclosed : ∀ n, closed n = true → closed (n + 1) = true) (payloads : List (List UInt8))
    (s : SubEntryState σ) :
    ∃ k, k ≤ payloads.length ∧ (∀ i < k, closed (s.loads + i) = false) ∧
      (k < payloads.length → closed (s.loads + k) = true) ∧
      (SubEntry.run closed callback payloads s).passed = s.passed ++ payloads.take k ∧
      (SubEntry.run closed callback payloads s).user =
        (payloads.take k).foldl (fun u b => (callback b u).2) s.user := by
  induction payloads generalizing s with
  | nil =>
    refine ⟨0, Nat.le_refl 0, fun i hi => absurd hi (Nat.not_lt_zero i), fun h => absurd h (Nat.lt_irrefl 0), ?_, rfl⟩
    rw [List.take_nil, List.append_nil]
    rfl
  | cons b payloads ih =>
    by_cases h : closed s.loads = true
    · obtain ⟨huser, hpassed⟩ := run_closed callback hclosed (b :: payloads) s h
      refine ⟨0, Nat.zero_le _, fun i hi => absurd hi (Nat.not_lt_zero i), fun _ => h, ?_, huser⟩
      rw [hpassed, List.take_zero, List.append_nil]
    · have hopen : closed s.loads = false := Bool.eq_false_iff.mpr h
      have hstep : (SubEntry.onSample closed callback b s).1 =
          ⟨(callback b s.user).2, s.loads + 1, s.passed ++ [b]⟩ := by
        rw [SubEntry.onSample, if_neg h]
      obtain ⟨k, hk, hbefore, hat, hpassed, huser⟩ := ih ⟨(callback b s.user).2, s.loads + 1, s.passed ++ [b]⟩
      refine ⟨k + 1, Nat.succ_le_succ hk, fun i hi => ?_, fun hlt => ?_, ?_, ?_⟩
      · cases i with
        | zero => exact hopen
        | succ i =>
          have hnext := hbefore i (Nat.lt_of_succ_lt_succ hi)
          rwa [show s.loads + (i + 1) = s.loads + 1 + i by omega]
      · have hnext := hat (Nat.lt_of_succ_lt_succ hlt)
        rwa [show s.loads + (k + 1) = s.loads + 1 + k by omega]
      · rw [SubEntry.run, List.foldl_cons, hstep]
        exact hpassed.trans (by rw [List.take_succ_cons, List.append_assoc, List.singleton_append])
      · rw [SubEntry.run, List.foldl_cons, hstep]
        exact huser.trans (by rw [List.take_succ_cons, List.foldl_cons])

/-- A dispatch that was not closed before it began takes the whole queue and gives every sample back. -/
theorem dispatch_open (queue : List Sample) (user : σ) (h : closed 0 = false) :
    SubEntry.dispatch closed callback queue user =
      (⟨SubEntry.run closed callback (validPayloads queue) ⟨user, 1, []⟩, queue⟩, [], none) := by
  have hquiet : ∀ b ∈ validPayloads queue, ∀ s, (SubEntry.onSample closed callback b s).2 = none :=
    fun b _ s => onSample_quiet closed callback b s
  rw [SubEntry.dispatch, if_neg (by rw [h]; decide), takeAll_quiet hquiet]
  rfl

end Entry

section Trampoline
variable {M : Type} {schema : Members}

instance : DecidablePred PyError.IsValueError := fun e =>
  match e with
  | .valueError _ | .unicodeEncodeError | .unicodeDecodeError => .isTrue trivial
  | .structError => .isFalse id

/-- `deliver`: a `ValueError` of the decoder drops the sample, anything else goes on to the caller. -/
def deliver (msg : Message M schema) (callback : M → σ → Except String Unit × σ) (raw : List UInt8)
    (s : SubscriptionState M σ) : Except String Unit × SubscriptionState M σ :=
  match msg.fromCdr raw with
  | .error e => if e.IsValueError then (.ok (), s) else (.error "struct.error", s)
  | .ok m => ((callback m s.user).1, ⟨(callback m s.user).2, s.invoked ++ [m]⟩)

/-- The messages that a list of payloads stands for. -/
def received (msg : Message M schema) (payloads : List (List UInt8)) : List M :=
  payloads.filterMap fun b => (msg.fromCdr b).toOption

theorem foldl_deliver (msg : Message M schema) (callback : M → σ → Except String Unit × σ)
    (payloads : List (List UInt8)) (s : SubscriptionState M σ) :
    payloads.foldl (fun s b => (deliver msg callback b s).2) s =
      ⟨(received msg payloads).foldl (fun u m => (callback m u).2) s.user, s.invoked ++ received msg payloads⟩ := by
  induction payloads generalizing s with
  | nil =>
    rw [received, List.filterMap_nil, List.append_nil]
    rfl
  | cons b payloads ih =>
    rw [List.foldl_cons, ih, received, received, List.filterMap_cons, deliver]
    cases msg.fromCdr b with
    | error e =>
      dsimp only [Except.toOption]
      split_ifs <;> rfl
    | ok m =>
      dsimp only [Except.toOption]
      rw [List.foldl_cons, List.append_assoc, List.singleton_append]

/-- What reaches the user is what the generated C++ decoder accepts with strings that are UTF-8. -/
theorem mem_received (msg : Message M schema) (hagree : DecodersAgree msg) {b : List UInt8} (hlen : b.length < 2^63)
    (m : M) : m ∈ received msg [b] ↔ ∃ v r, schema.decode true b = .ok (v, r) ∧ msg.toCpp m = some v := by
  rw [← (hagree b hlen).1 m, received, List.mem_filterMap]
  constructor
  · rintro ⟨b', hb', h⟩
    obtain rfl := List.mem_singleton.mp hb'
    cases hcdr : msg.fromCdr b' with
    | error e =>
      rw [hcdr] at h
      cases h
    | ok m' =>
      rw [hcdr] at h
      obtain rfl : m' = m := Option.some.inj h
      rfl
  · intro h
    refine ⟨b, List.mem_singleton_self b, ?_⟩
    rw [h]
    rfl

/-- The trampoline itself raises nothing: what comes out of it was raised by the user's callback. -/
theorem deliver_raises (msg : Message M schema) (hagree : DecodersAgree msg)
    (callback : M → σ → Except String Unit × σ) {raw : List UInt8} (hlen : raw.length < 2^63)
    (s : SubscriptionState M σ) {e : String} (h : (deliver msg callback raw s).1 = .error e) :
    ∃ m, msg.fromCdr raw = .ok m ∧ (callback m s.user).1 = .error e := by
  unfold deliver at h
  cases hcdr : msg.fromCdr raw with
  | error e' =>
    have he := (hagree raw hlen).2 e' hcdr
    rw [hcdr] at h
    dsimp only at h
    rw [if_pos he] at h
    cases h
  | ok m =>
    rw [hcdr] at h
    exact ⟨m, rfl, h⟩

/-- Whatever is in the queue, whatever the callback raises and whenever the subscription is closed: nothing
leaves `dispatch`, and unless it was closed before, every sample is given back and the callback ran on exactly
the messages among the payloads in front of the first load that found the flag set, one after the other on the
state it works on. A payload is a message exactly when the generated C++ decoder accepts it with strings that
are UTF-8. -/
theorem python_dispatch_contains_errors (topic : TopicType M) (callback : M → σ → Except String Unit × σ)
    (closed : ℕ → Bool) (hclosed : ∀ n, closed n = true → closed (n + 1) = true) (queue : List Sample)
    (hsize : ∀ x ∈ queue, x.payload.length < 2^63) (user : σ) :
    (closed 0 = true → SubEntry.dispatch closed (deliver topic.msg callback) queue ⟨user, []⟩ =
      (⟨⟨⟨user, []⟩, 1, []⟩, []⟩, queue, none)) ∧
    (closed 0 = false → ∃ k s, SubEntry.dispatch closed (deliver topic.msg callback) queue ⟨user, []⟩ =
        (⟨s, queue⟩, [], none) ∧
      (∀ i < k, closed (1 + i) = false) ∧ (k < (validPayloads queue).length → closed (1 + k) = true) ∧
      s.passed = (validPayloads queue).take k ∧ s.user.invoked = received topic.msg s.passed ∧
      s.user.user = (received topic.msg s.passed).foldl (fun u m => (callback m u).2) user) ∧
    (∀ b ∈ validPayloads queue, ∀ m, m ∈ received topic.msg [b] ↔
      ∃ v r, topic.schema.decode true b = .ok (v, r) ∧ topic.msg.toCpp m = some v) ∧
    ∀ b ∈ validPayloads queue, ∀ s e, (deliver topic.msg callback b s).1 = .error e →
      ∃ m, topic.msg.fromCdr b = .ok m ∧ (callback m s.user).1 = .error e := by
  have hshort : ∀ b ∈ validPayloads queue, b.length < 2^63 := by
    intro b hb
    obtain ⟨x, hx, rfl⟩ := List.mem_map.mp hb
    exact hsize x (List.mem_filter.mp hx).1
  refine ⟨fun h => if_pos h, fun h => ?_, ?_, ?_⟩
  · obtain ⟨k, -, hbefore, hat, hpassed, huser⟩ := run_spec (deliver topic.msg callback) hclosed
      (validPayloads queue) ⟨⟨user, []⟩, 1, []⟩
    refine ⟨k, _, dispatch_open (deliver topic.msg callback) queue ⟨user, []⟩ h, hbefore, hat, hpassed, ?_⟩
    rw [huser, hpassed, foldl_deliver]
    exact ⟨rfl, rfl⟩
  · exact fun b hb m => mem_received topic.msg topic.agree (hshort b hb) m
  · exact fun b hb s e he => deliver_raises topic.msg topic.agree callback (hshort b hb) s he

/-- A truncated payload, a string that is not UTF-8, a sample without data, and two messages. -/
def stringQueue : List Sample :=
  [⟨[0, 1], true⟩, ⟨[0, 1, 0, 0, 2, 0, 0, 0, 0xFF, 0], true⟩, ⟨[], false⟩,
    ⟨[0, 1, 0, 0, 2, 0, 0, 0, 0x48, 0], true⟩, ⟨[0, 1, 0, 0, 2, 0, 0, 0, 0x69, 0], true⟩]

/-- Closed in front of the last sample, with a callback that raises. -/
theorem python_dispatch_contains_errors_closing : ∃ s : TakeState (SubEntryState (SubscriptionState StringMsg ℕ)),
    SubEntry.dispatch (fun n => 4 ≤ n) (deliver stringMessage (fun _ n => (.error "refused", n + 1))) stringQueue
        ⟨0, []⟩ = (s, [], none) ∧ s.released = stringQueue ∧ s.state.passed = (validPayloads stringQueue).take 3 ∧
      s.state.user.user = 1 := by
  obtain ⟨k, s, hrun, hbefore, hat, hpassed, -, huser⟩ := (python_dispatch_contains_errors stringTopic
    (fun _ n => (.error "refused", n + 1)) (fun n => 4 ≤ n)
    (fun n h => decide_eq_true (Nat.le_succ_of_le (of_decide_eq_true h))) stringQueue (by decide) (0 : ℕ)).2.1 rfl
  -- the flag is found set by the fourth load behind the first
  have hk : k = 3 := by
    have hle : k ≤ 3 := by
      by_contra hgt
      exact absurd (hbefore 3 (not_le.mp hgt)) (by decide)
    have hge : 3 ≤ k := by
      by_contra hlt
      have hlen : k < (validPayloads stringQueue).length := (not_le.mp hlt).trans (by decide)
      have := of_decide_eq_true (hat hlen)
      omega
    omega
  subst hk
  rw [hpassed] at huser
  exact ⟨⟨s, stringQueue⟩, hrun, rfl, hpassed, huser.trans (by decide +kernel)⟩

end Trampoline

end Rcllite.Py
