import Rcllite.TopologyErrors

/-! What a topology document means. The nodes one wants are written down as plain data; a document says them
when its members do, in whatever order and whatever else it has. The constructor of `GraphExecutor` then
builds just these nodes, or refuses the document. -/
namespace Rcllite.Topology
open JsonValue Checks
open Utf8 (literal)

section Specifications

inductive Scalar where
  | bool (b : Bool)
  | int (n : ℤ)
  | double (bits : BitVec 64)
  | string (s : List UInt8)

namespace Scalar

def json : Scalar → Value
  | .bool b => .boolean b
  | .int n => .integer n
  | .double bits => .float bits
  | .string s => .string s

def parameter : Scalar → ParameterValue
  | .bool b => { type := ⟨1⟩, boolValue := b }
  | .int n => { type := ⟨2⟩, integerValue := BitVec.ofInt 64 n }
  | .double bits => { type := ⟨3⟩, doubleValue := bits }
  | .string s => { type := ⟨4⟩, stringValue := s }

end Scalar

def numberJson : Number → Value
  | .integer n => .integer n
  | .float bits => .float bits

/-- The members of `qos` that are there. -/
structure QosSpec where
  bestEffort : Option Bool := none
  transientLocal : Option Bool := none
  depth : Option Number := none

/-- `QoS::Default`, but for what is said. -/
def QosSpec.qos (q : QosSpec) : QoS :=
  ⟨q.bestEffort.getD false, q.transientLocal.getD false, (q.depth.map Number.toSize).getD 10⟩

structure EndpointSpec where
  topic : List UInt8
  type : List UInt8
  qos : Option QosSpec := none

structure PublisherSpec extends EndpointSpec where
  payload : Option (List UInt8) := none
  rateHz : Option Number := none

structure NodeSpec where
  name : List UInt8
  namespace_ : Option (List UInt8) := none
  cls : Option (List UInt8) := none
  parameters : Option (List (List UInt8 × Scalar)) := none
  publishers : List PublisherSpec := []
  subscriptions : List EndpointSpec := []

def EndpointSpec.qosOf (e : EndpointSpec) : QoS := (e.qos.map QosSpec.qos).getD {}

def NodeSpec.ns (s : NodeSpec) : List UInt8 := s.namespace_.getD (literal "/")

end Specifications

section Documents

/-- `c` is the hexadecimal digit `n`, of either case. -/
def HexDigitOf (c : UInt8) (n : ℕ) : Prop :=
  (literal "0123456789abcdef")[n]? = some c ∨ (literal "0123456789ABCDEF")[n]? = some c

/-- Two digits for every byte. -/
inductive HexText : List UInt8 → List UInt8 → Prop
  | nil : HexText [] []
  | cons {hi lo b : UInt8} {hex bytes : List UInt8} (hhi : HexDigitOf hi (b.toNat/16)) (hlo : HexDigitOf lo (b.toNat%16))
      (hrest : HexText hex bytes) : HexText (hi :: lo :: hex) (b :: bytes)

/-- A word that stands for a setting, or any other word that stands for the default. -/
def SaysWord (v : Value) (key word : List UInt8) (setting : Option Bool) : Prop :=
  match setting with
  | none => v.find? key = none
  | some true => v.find? key = some (.string word)
  | some false => ∃ other ≠ word, v.find? key = some (.string other)

structure QosSpec.In (q : QosSpec) (v : Value) : Prop where
  object : ∃ members, v = .object members
  reliability : SaysWord v (literal "reliability") (literal "best_effort") q.bestEffort
  durability : SaysWord v (literal "durability") (literal "transient_local") q.transientLocal
  depth : v.find? (literal "depth") = q.depth.map numberJson

structure EndpointSpec.In (e : EndpointSpec) (v : Value) : Prop where
  topic : v.find? (literal "topic") = some (.string e.topic)
  type : v.find? (literal "type") = some (.string e.type)
  qos : match e.qos with
    | none => v.find? (literal "qos") = none
    | some q => ∃ w, v.find? (literal "qos") = some w ∧ q.In w

structure PublisherSpec.In (p : PublisherSpec) (v : Value) : Prop extends p.toEndpointSpec.In v where
  payload : match p.payload with
    | none => v.find? (literal "payload_hex") = none
    | some bytes => ∃ hex, v.find? (literal "payload_hex") = some (.string hex) ∧ HexText hex bytes
  rateHz : v.find? (literal "rate_hz") = p.rateHz.map numberJson

structure NodeSpec.In (s : NodeSpec) (v : Value) : Prop where
  name : v.find? (literal "name") = some (.string s.name)
  namespace_ : v.find? (literal "namespace") = s.namespace_.map .string
  cls : v.find? (literal "class") = s.cls.map .string
  parameters : v.find? (literal "parameters") = s.parameters.map fun ps => .object (ps.map fun p => (p.1, p.2.json))
  publishers : List.Forall₂ PublisherSpec.In s.publishers (elementsOf v (literal "publishers"))
  subscriptions : List.Forall₂ EndpointSpec.In s.subscriptions (elementsOf v (literal "subscriptions"))

/-- The document describes these nodes, in this order. -/
def Says (doc : Value) (specs : List NodeSpec) : Prop :=
  ∃ nodes, doc.find? (literal "nodes") = some (.array nodes) ∧ List.Forall₂ NodeSpec.In specs nodes

end Documents

section Acceptance

/-- The names of an endpoint: the type, the full name of the topic and the name DDS has for it. -/
structure EndpointSpec.Named (e : EndpointSpec) (ns type topic ddsTopic : List UInt8) : Prop where
  typed : ddsTypeName e.type = .ok type
  expanded : expandTopicName e.topic ns = .ok topic
  mapped : rosToDdsTopicName topic = .ok ddsTopic

def EndpointSpec.Accepted (e : EndpointSpec) (ns : List UInt8) : Prop :=
  ∃ type topic ddsTopic, e.Named ns type topic ddsTopic

variable (host : Host)

/-- The node before its parameters are declared. -/
def NodeSpec.base (s : NodeSpec) : Option TopologyNode :=
  match s.cls with
  | none => (nodeNames s.name s.ns).toOption.map fun names => ⟨names.2, none⟩
  | some cls => (host.createByName cls s.name s.ns).bind Except.toOption

structure NodeSpec.Accepted (s : NodeSpec) : Prop where
  base : ∃ node, s.base host = some node ∧ ((s.parameters.getD []).map Prod.fst).Nodup ∧
    ∀ p ∈ s.parameters.getD [], Takes node p.1 p.2.json
  publishers : ∀ p ∈ s.publishers, p.toEndpointSpec.Accepted s.ns
  subscriptions : ∀ e ∈ s.subscriptions, e.Accepted s.ns

end Acceptance

section Results

/-- The endpoint that was asked for. -/
def EndpointSpec.Is (e : EndpointSpec) (ns type topic : List UInt8) (qos : QoS) : Prop :=
  e.Named ns type topic (literal "rt" ++ topic) ∧ qos = e.qosOf

def PublisherSpec.Built (ns : List UInt8) (p : PublisherSpec) (pub : RawPublisher) : Prop :=
  p.toEndpointSpec.Is ns pub.type pub.topic pub.qos ∧ pub.payload = p.payload.getD defaultPayload ∧
    pub.rateHz = p.rateHz.getD (.integer 0)

def EndpointSpec.Built (ns : List UInt8) (e : EndpointSpec) (sub : RawSubscription) : Prop :=
  e.Is ns sub.type sub.topic sub.qos

/-- The node with the parameters that were asked for, beside those it had. -/
structure NodeSpec.Built (host : Host) (s : NodeSpec) (entry : NodeEntry) : Prop where
  namespace_ : entry.namespace_ = s.ns
  node : ∃ base, s.base host = some base ∧ entry.node.fqName = base.fqName ∧ ∀ name,
    entry.node.coreOr.values.find? name =
      (((s.parameters.getD []).lookup name).map Scalar.parameter).or (base.coreOr.values.find? name)
  publishers : List.Forall₂ (PublisherSpec.Built s.ns) s.publishers entry.publishers
  subscriptions : List.Forall₂ (EndpointSpec.Built s.ns) s.subscriptions entry.subscriptions

/-- The topics of a node, in the order in which its endpoints are created. -/
def NodeEntry.topics (entry : NodeEntry) : List (List UInt8) :=
  entry.publishers.map RawPublisher.topic ++ entry.subscriptions.map RawSubscription.topic

/-- The world once the entries are built and publishing has started. -/
def World.after (w : World) (entries : List NodeEntry) : World :=
  let pubs := entries.flatMap NodeEntry.publishers
  { nodes := w.nodes ++ entries.map fun entry => entry.node.fqName
    endpoints := w.endpoints ++ (entries.flatMap NodeEntry.topics).map (literal "rt" ++ ·)
    periodic := w.periodic ++ (pubs.filter fun pub => pub.rateHz.positive).map RawPublisher.topic
    written := w.written ++ (pubs.filter fun pub => !pub.rateHz.positive).map fun pub => (pub.topic, pub.payload) }

end Results

section Reading
variable {v : Value} {key : List UInt8}

theorem contains_of_find {x : Value} (h : v.find? key = some x) : v.contains key = true := by rw [Value.contains, h]; rfl

theorem textOf_of_find {s otherwise : List UInt8} (h : v.find? key = some (.string s)) : textOf v key otherwise = s := by
  rw [textOf, h]

theorem textOf_of_map {s : Option (List UInt8)} {otherwise : List UInt8} (h : v.find? key = s.map .string) :
    textOf v key otherwise = s.getD otherwise := by
  rw [textOf, h]
  cases s <;> rfl

theorem all_isString {s : Option (List UInt8)} (h : v.find? key = s.map .string) : (v.find? key).all isString = true := by
  rw [h]
  cases s <;> rfl

theorem all_isNumber {n : Option Number} (h : v.find? key = n.map numberJson) : (v.find? key).all isNumber = true := by
  rw [h]
  rcases n with _ | (n | bits) <;> rfl

theorem SaysWord.isString {word : List UInt8} {setting : Option Bool} (h : SaysWord v key word setting) :
    (v.find? key).all isString = true := by
  rcases setting with _ | (_ | _)
  · rw [h]
    rfl
  · obtain ⟨other, -, h⟩ := h
    rw [h]
    rfl
  · rw [h]
    rfl

theorem hexDigit_nibble {c : UInt8} {n : ℕ} (h : HexDigitOf c n) : nibble c = some (UInt8.ofNat n) := by
  have hall : ∀ n < 16, ∀ c, HexDigitOf c n → nibble c = some (UInt8.ofNat n) := by
    intro n hn c hc
    have hlow : ∀ n < 16, ((literal "0123456789abcdef")[n]?).bind nibble = some (UInt8.ofNat n) := by decide
    have hhigh : ∀ n < 16, ((literal "0123456789ABCDEF")[n]?).bind nibble = some (UInt8.ofNat n) := by decide
    rcases hc with hc | hc
    · have hn := hlow n hn
      rwa [hc, Option.bind_some] at hn
    · have hn := hhigh n hn
      rwa [hc, Option.bind_some] at hn
  refine hall n ?_ c h
  rcases h with h | h
  · exact (List.getElem?_eq_some_iff.mp h).1
  · exact (List.getElem?_eq_some_iff.mp h).1

theorem byte_of_nibbles (b : UInt8) : UInt8.ofNat (b.toNat/16) <<< 4 ||| UInt8.ofNat (b.toNat%16) = b := by
  have hall : ∀ k < 256, UInt8.ofNat (k/16) <<< 4 ||| UInt8.ofNat (k%16) = UInt8.ofNat k := by decide +kernel
  have hb := hall b.toNat (UInt8.toNat_lt b)
  rwa [UInt8.ofNat_toNat] at hb

theorem HexText.hexBytes {hex bytes : List UInt8} (h : HexText hex bytes) : Topology.hexBytes hex = some bytes := by
  induction h with
  | nil => rfl
  | @cons hi lo b hex bytes hhi hlo _ ih =>
    rw [Topology.hexBytes, hexDigit_nibble hhi, hexDigit_nibble hlo, ih]
    exact congrArg (fun b => some (b :: bytes)) (byte_of_nibbles b)

theorem HexText.even {hex bytes : List UInt8} (h : HexText hex bytes) : hex.length % 2 = 0 := by
  induction h with
  | nil => rfl
  | cons _ _ _ ih => rwa [List.length_cons, List.length_cons, Nat.add_assoc, Nat.add_mod_right]

theorem HexText.hexValid {hex bytes : List UInt8} (h : HexText hex bytes) : Topology.hexValid hex = true := by
  rw [Topology.hexValid, ← hexBytes_isSome h.even, h.hexBytes, h.even]
  rfl

theorem HexText.payload {hex bytes what : List UInt8} (h : HexText hex bytes) : payloadFromHex hex what = .ok bytes := by
  rw [payloadFromHex, if_neg (not_not.mpr h.even), h.hexBytes]

end Reading

section Passing
variable {host : Host} {ns : List UInt8} {v : Value}

theorem isOk_iff {ε α : Type} {x : Except ε α} : x.isOk = true ↔ ∃ a, x = .ok a := by
  cases x with
  | ok a => exact iff_of_true rfl ⟨a, rfl⟩
  | error e => exact iff_of_false (fun h => by cases h) fun ⟨_, h⟩ => by cases h

theorem EndpointSpec.accepted_iff (e : EndpointSpec) : e.Accepted ns ↔
    (ddsTypeName e.type).isOk = true ∧ (expandTopicName e.topic ns >>= rosToDdsTopicName).isOk = true := by
  rw [isOk_iff, isOk_iff]
  constructor
  · rintro ⟨type, topic, ddsTopic, h⟩
    exact ⟨⟨type, h.typed⟩, ddsTopic, bind_eq_ok.mpr ⟨topic, h.expanded, h.mapped⟩⟩
  · rintro ⟨⟨type, htype⟩, ddsTopic, h⟩
    obtain ⟨topic, hexpand, hmap⟩ := bind_eq_ok.mp h
    exact ⟨type, topic, ddsTopic, htype, hexpand, hmap⟩

theorem QosSpec.In.passed {q : QosSpec} {w : Value} (h : q.In w) : firstFault (qosChecks w) = none := by
  obtain ⟨⟨members, rfl⟩, hreliability, hdurability, hdepth⟩ := h
  simp only [qosChecks, typed, firstFault_foreign, firstFault_nil, and_true]
  exact ⟨hreliability.isString, hdurability.isString, all_isNumber hdepth⟩

theorem EndpointSpec.In.qos_passed {e : EndpointSpec} (h : e.In v) :
    firstFault (qosChecks ((v.find? (literal "qos")).getD (.object []))) = none := by
  have hqos := h.qos
  cases hq : e.qos with
  | none =>
    simp only [hq] at hqos
    rw [hqos]
    rfl
  | some q =>
    simp only [hq] at hqos
    obtain ⟨w, hfind, hw⟩ := hqos
    rw [hfind]
    exact hw.passed

theorem EndpointSpec.In.names_passed {e : EndpointSpec} (h : e.In v) :
    firstFault (nameChecks ns v) = none ↔
      (ddsTypeName e.type).isOk = true ∧ (expandTopicName e.topic ns).isOk = true := by
  simp only [nameChecks, typed, firstFault_own, firstFault_foreign, firstFault_nil, and_true,
    contains_of_find h.topic, contains_of_find h.type, textOf_of_find h.topic, textOf_of_find h.type, h.topic, h.type,
    Option.all_some, isString, Bool.and_self, true_and]

theorem EndpointSpec.In.arguments_passed {e : EndpointSpec} (h : e.In v) :
    firstFault (argumentChecks host ns v) = none ↔
      (expandTopicName e.topic ns >>= rosToDdsTopicName).isOk = true := by
  rw [argumentChecks, textOf_of_find h.topic]
  cases host.qosFirst with
  | true => simp [h.qos_passed]
  | false => simp [h.qos_passed]

/-- An expanded name that DDS has a name for was expanded. -/
theorem EndpointSpec.In.passed {e : EndpointSpec} (h : e.In v) :
    firstFault (nameChecks ns v) = none ∧ firstFault (argumentChecks host ns v) = none ↔ e.Accepted ns := by
  rw [h.names_passed, h.arguments_passed, e.accepted_iff]
  refine ⟨fun hall => ⟨hall.1.1, hall.2⟩, fun hall => ⟨⟨hall.1, ?_⟩, hall.2⟩⟩
  obtain ⟨ddsTopic, hmap⟩ := isOk_iff.mp hall.2
  obtain ⟨topic, hexpand, -⟩ := bind_eq_ok.mp hmap
  exact isOk_iff.mpr ⟨topic, hexpand⟩

theorem PublisherSpec.In.passed {p : PublisherSpec} (h : p.In v) :
    firstFault (publisherChecks host ns v) = none ↔ p.toEndpointSpec.Accepted ns := by
  have hpayload : (v.find? (literal "payload_hex")).all isString = true ∧
      hexValid (textOf v (literal "payload_hex") []) = true := by
    have hp := h.payload
    cases hbytes : p.payload with
    | none =>
      simp only [hbytes] at hp
      rw [textOf, hp]
      exact ⟨rfl, rfl⟩
    | some bytes =>
      simp only [hbytes] at hp
      obtain ⟨hex, hfind, hhex⟩ := hp
      rw [textOf_of_find hfind, hfind]
      exact ⟨rfl, hhex.hexValid⟩
  have hboth : firstFault (nameChecks ns v) = none ∧ firstFault (argumentChecks host ns v) = none ↔ _ := h.toIn.passed
  rw [← hboth]
  simp only [publisherChecks, typed, firstFault_append_none, firstFault_own, firstFault_foreign, firstFault_nil,
    hpayload, all_isNumber h.rateHz, true_and, and_true]

theorem subscription_passed {e : EndpointSpec} (h : e.In v) :
    firstFault (subscriptionChecks host ns v) = none ↔ e.Accepted ns := by
  rw [subscriptionChecks, firstFault_append_none, h.passed]

/-- The checks of a list of endpoints. -/
theorem list_passed {σ : Type} {In : σ → Value → Prop} {Accepted : σ → Prop} {checks : Value → List Check}
    (hpass : ∀ s v, In s v → (firstFault (checks v) = none ↔ Accepted s)) {specs : List σ} {vs : List Value}
    (h : List.Forall₂ In specs vs) : firstFault (vs.flatMap checks) = none ↔ ∀ s ∈ specs, Accepted s := by
  induction h with
  | nil => simp
  | cons hx _ ih => rw [List.flatMap_cons, firstFault_append_none, hpass _ _ hx, ih, List.forall_mem_cons]

theorem NodeSpec.In.textOf_ns {s : NodeSpec} (h : s.In v) : textOf v (literal "namespace") (literal "/") = s.ns :=
  textOf_of_map h.namespace_

theorem NodeSpec.In.nodeOf {s : NodeSpec} (h : s.In v) : Topology.nodeOf host v = s.base host := by
  rw [Topology.nodeOf, NodeSpec.base, textOf_of_find h.name, h.textOf_ns, textOf_of_map h.cls, Value.contains, h.cls]
  cases s.cls <;> rfl

/-- A class whose constructor returns reports nothing. -/
theorem NodeSpec.In.classReports {s : NodeSpec} (h : s.In v) {node : TopologyNode} (hbase : s.base host = some node) :
    Topology.classReports host v = true := by
  rw [Topology.classReports, textOf_of_find h.name, h.textOf_ns, textOf_of_map h.cls, Value.contains, h.cls]
  rw [NodeSpec.base] at hbase
  cases hcls : s.cls with
  | none => rfl
  | some cls =>
    rw [hcls] at hbase
    dsimp only at hbase
    obtain ⟨outcome, hcreate, hnode⟩ := Option.bind_eq_some_iff.mp hbase
    rw [Option.getD_some, hcreate]
    cases outcome with
    | ok node => rfl
    | error e => cases hnode

theorem NodeSpec.In.accepts {s : NodeSpec} (h : s.In v) (node : TopologyNode) :
    acceptsMember node (v.find? (literal "parameters")) = true ↔
      ((s.parameters.getD []).map Prod.fst).Nodup ∧ ∀ p ∈ s.parameters.getD [], Takes node p.1 p.2.json := by
  rw [h.parameters]
  cases s.parameters with
  | none => simp [acceptsMember]
  | some ps =>
    rw [Option.map_some, acceptsMember, acceptsParameters_iff, List.map_map, List.forall_mem_map]
    rfl

theorem NodeSpec.In.passed {s : NodeSpec} (h : s.In v) : firstFault (nodeChecks host v) = none ↔ s.Accepted host := by
  have hpublishers : firstFault ((elementsOf v (literal "publishers")).flatMap (publisherChecks host s.ns)) = none ↔
      ∀ p ∈ s.publishers, p.toEndpointSpec.Accepted s.ns :=
    list_passed (fun _ _ hp => PublisherSpec.In.passed hp) h.publishers
  have hsubscriptions :
      firstFault ((elementsOf v (literal "subscriptions")).flatMap (subscriptionChecks host s.ns)) = none ↔
        ∀ e ∈ s.subscriptions, e.Accepted s.ns :=
    list_passed (fun _ _ he => subscription_passed he) h.subscriptions
  simp only [nodeChecks, h.textOf_ns, h.nodeOf, typed, firstFault_append_none, firstFault_own, firstFault_foreign,
    firstFault_nil, and_true, hpublishers, hsubscriptions, contains_of_find h.name, all_isString h.namespace_,
    all_isString h.cls, h.name, Option.all_some, isString, true_and]
  constructor
  · rintro ⟨⟨-, hbase⟩, hparameters, hpubs, hsubs⟩
    obtain ⟨node, hnode⟩ := Option.isSome_iff_exists.mp hbase
    rw [hnode, Option.all_some] at hparameters
    exact ⟨⟨node, hnode, (h.accepts node).mp hparameters⟩, hpubs, hsubs⟩
  · rintro ⟨⟨node, hnode, hparameters⟩, hpubs, hsubs⟩
    rw [hnode, Option.all_some]
    exact ⟨⟨h.classReports hnode, rfl⟩, (h.accepts node).mpr hparameters, hpubs, hsubs⟩

theorem topology_passed {text : List UInt8} {doc : Value} {specs : List NodeSpec}
    (hdoc : host.jsonFromDoc text = .ok doc) (hmeans : Says doc specs) :
    firstFault (topologyChecks host text) = none ↔ specs ≠ [] ∧ ∀ s ∈ specs, s.Accepted host := by
  obtain ⟨nodes, hnodes, hin⟩ := hmeans
  have hall : firstFault (nodes.flatMap (nodeChecks host)) = none ↔ ∀ s ∈ specs, s.Accepted host :=
    list_passed (fun _ _ hs => NodeSpec.In.passed hs) hin
  rw [topologyChecks, hdoc]
  dsimp only
  rw [hnodes]
  dsimp only
  rw [firstFault_own, hall]
  cases hin with
  | nil => simp
  | cons _ _ => simp

end Passing

section Building
variable {host : Host} {ns : List UInt8} {v : Value}

theorem SaysWord.valueOr {members : List (List UInt8 × Value)} {key word : List UInt8} {setting : Option Bool}
    (h : SaysWord (.object members) key word setting) {otherwise : List UInt8} (hne : otherwise ≠ word) :
    ∃ s, ofJson ((Value.object members).valueOr Value.getString key otherwise) = .ok s ∧
      (s = word ↔ setting.getD false = true) := by
  rw [valueOr_of_contains rfl]
  rcases setting with _ | (_ | _)
  · rw [h]
    exact ⟨otherwise, rfl, iff_of_false hne Bool.false_ne_true⟩
  · obtain ⟨other, hother, h⟩ := h
    rw [h]
    exact ⟨other, rfl, iff_of_false hother Bool.false_ne_true⟩
  · rw [h]
    exact ⟨word, rfl, iff_of_true rfl rfl⟩

theorem number_read {n : Number} {key : List UInt8} (h : v.find? key = some (numberJson n)) :
    ofJson (v.fetch key >>= Value.getNumber) = .ok n := by
  rw [fetch_of_find h]
  cases n <;> rfl

theorem QosSpec.In.parse {q : QosSpec} {w : Value} (h : q.In w) : parseQos w {} = .ok q.qos := by
  obtain ⟨⟨members, rfl⟩, hreliability, hdurability, hdepth⟩ := h
  have hreliable : literal "reliable" ≠ literal "best_effort" := by decide
  have hvolatile : literal "volatile" ≠ literal "transient_local" := by decide
  obtain ⟨r, hr, hbest⟩ := hreliability.valueOr hreliable
  obtain ⟨d, hd, hlocal⟩ := hdurability.valueOr hvolatile
  have hbase : (if d = literal "transient_local"
      then { (if r = literal "best_effort" then { ({} : QoS) with bestEffort := true } else ({} : QoS)) with
        transientLocal := true }
      else if r = literal "best_effort" then { ({} : QoS) with bestEffort := true } else ({} : QoS)) =
      ⟨q.bestEffort.getD false, q.transientLocal.getD false, 10⟩ := by
    simp only [hbest, hlocal]
    cases q.bestEffort.getD false <;> cases q.transientLocal.getD false <;> rfl
  rw [parseQos]
  refine bind_eq_ok.mpr ⟨r, hr, bind_eq_ok.mpr ⟨d, hd, ?_⟩⟩
  dsimp only
  rw [hbase]
  cases hq : q.depth with
  | none =>
    rw [hq, Option.map_none] at hdepth
    rw [Value.contains, hdepth, QosSpec.qos, hq]
    rfl
  | some n =>
    rw [hq, Option.map_some] at hdepth
    rw [contains_of_find hdepth, if_pos rfl, QosSpec.qos, hq]
    exact bind_eq_ok.mpr ⟨n, number_read hdepth, rfl⟩

theorem EndpointSpec.In.members {e : EndpointSpec} (h : e.In v) : ∃ members, v.members? = some members :=
  members_of_contains (contains_of_find h.topic)

theorem EndpointSpec.In.parse {e : EndpointSpec} (h : e.In v) : endpointQos v = .ok e.qosOf := by
  obtain ⟨members, hm⟩ := h.members
  have hqos := h.qos
  rw [endpointQos, valueOr_of_contains hm, EndpointSpec.qosOf]
  cases hq : e.qos with
  | none =>
    simp only [hq] at hqos
    rw [hqos]
    rfl
  | some q =>
    simp only [hq] at hqos
    obtain ⟨w, hfind, hw⟩ := hqos
    rw [hfind]
    exact hw.parse

theorem EndpointSpec.In.names {e : EndpointSpec} (h : e.In v) {what type topic : List UInt8}
    (hnames : endpointNames what ns v = .ok (type, topic)) :
    ddsTypeName e.type = .ok type ∧ expandTopicName e.topic ns = .ok topic := by
  rw [endpointNames, contains_of_find h.topic, contains_of_find h.type, Bool.and_self, if_pos rfl,
    fetch_of_find h.type, fetch_of_find h.topic] at hnames
  obtain ⟨t, ht, hnames⟩ := bind_eq_ok.mp hnames
  cases ht
  obtain ⟨type', htype, hnames⟩ := bind_eq_ok.mp hnames
  obtain ⟨u, hu, hnames⟩ := bind_eq_ok.mp hnames
  cases hu
  obtain ⟨topic', htopic, hnames⟩ := bind_eq_ok.mp hnames
  cases hnames
  exact ⟨of_ofNames_ok htype, of_ofNames_ok htopic⟩

theorem EndpointSpec.In.arguments {e : EndpointSpec} (h : e.In v) {topic ddsTopic : List UInt8} {qos : QoS}
    (harguments : endpointArguments host topic v = .ok (ddsTopic, qos)) :
    rosToDdsTopicName topic = .ok ddsTopic ∧ ddsTopic = literal "rt" ++ topic ∧ qos = e.qosOf := by
  have hboth : ofNames (rosToDdsTopicName topic) = .ok ddsTopic ∧ endpointQos v = .ok qos := by
    rw [endpointArguments] at harguments
    cases hfirst : host.qosFirst with
    | true =>
      rw [hfirst, if_pos rfl] at harguments
      obtain ⟨q, hq, harguments⟩ := bind_eq_ok.mp harguments
      obtain ⟨t, ht, harguments⟩ := bind_eq_ok.mp harguments
      cases harguments
      exact ⟨ht, hq⟩
    | false =>
      rw [hfirst, if_neg Bool.false_ne_true] at harguments
      obtain ⟨t, ht, harguments⟩ := bind_eq_ok.mp harguments
      obtain ⟨q, hq, harguments⟩ := bind_eq_ok.mp harguments
      cases harguments
      exact ⟨ht, hq⟩
  have htopic := of_ofNames_ok hboth.1
  have hqos := h.parse
  rw [hboth.2] at hqos
  exact ⟨htopic, (rosToDdsTopicName_ok_iff.mp htopic).2, Except.ok.inj hqos⟩

theorem PublisherSpec.In.read {p : PublisherSpec} (h : p.In v) {what payload : List UInt8}
    (hpayload : publisherPayload what v = .ok payload) : payload = p.payload.getD defaultPayload := by
  have hp := h.payload
  rw [publisherPayload] at hpayload
  cases hbytes : p.payload with
  | none =>
    simp only [hbytes] at hp
    rw [Value.contains, hp] at hpayload
    cases hpayload
    rfl
  | some bytes =>
    simp only [hbytes] at hp
    obtain ⟨hex, hfind, hhex⟩ := hp
    rw [contains_of_find hfind, if_pos rfl, fetch_of_find hfind] at hpayload
    obtain ⟨hex', hread, hpayload⟩ := bind_eq_ok.mp hpayload
    cases hread
    rw [hhex.payload] at hpayload
    exact (Except.ok.inj hpayload).symm

theorem PublisherSpec.In.rate {p : PublisherSpec} (h : p.In v) {n : Number}
    (hn : ofJson (v.valueOr Value.getNumber (literal "rate_hz") (.integer 0)) = .ok n) :
    n = p.rateHz.getD (.integer 0) := by
  obtain ⟨members, hm⟩ := h.toIn.members
  rw [valueOr_of_contains hm, h.rateHz] at hn
  generalize p.rateHz = rateHz at hn ⊢
  rcases rateHz with _ | (k | bits)
  · cases hn
    rfl
  · cases hn
    rfl
  · cases hn
    rfl

/-- An endpoint is created under its DDS name. -/
def World.endpoint (w : World) (topic : List UInt8) : World :=
  { w with endpoints := w.endpoints ++ [literal "rt" ++ topic] }

theorem PublisherSpec.In.build {p : PublisherSpec} (h : p.In v) {fqName : List UInt8} {w w' : World}
    {pub : RawPublisher} (hbuild : buildPublisher host fqName ns v w = .ok pub w') :
    PublisherSpec.Built ns p pub ∧ w' = w.endpoint pub.topic := by
  rw [buildPublisher] at hbuild
  obtain ⟨⟨type, topic⟩, hnames, hbuild⟩ := lift_bind_eq_ok.mp hbuild
  obtain ⟨payload, hpayload, hbuild⟩ := lift_bind_eq_ok.mp hbuild
  obtain ⟨rate, hrate, hbuild⟩ := lift_bind_eq_ok.mp hbuild
  obtain ⟨⟨ddsTopic, qos⟩, harguments, hbuild⟩ := lift_bind_eq_ok.mp hbuild
  obtain ⟨htype, htopic⟩ := h.toIn.names hnames
  obtain ⟨hmapped, rfl, hqos⟩ := h.toIn.arguments harguments
  cases hbuild
  exact ⟨⟨⟨⟨htype, htopic, hmapped⟩, hqos⟩, h.read hpayload, h.rate hrate⟩, rfl⟩

theorem EndpointSpec.In.build {e : EndpointSpec} (h : e.In v) {fqName : List UInt8} {w w' : World}
    {sub : RawSubscription} (hbuild : buildSubscription host fqName ns v w = .ok sub w') :
    EndpointSpec.Built ns e sub ∧ w' = w.endpoint sub.topic := by
  rw [buildSubscription] at hbuild
  obtain ⟨⟨type, topic⟩, hnames, hbuild⟩ := lift_bind_eq_ok.mp hbuild
  obtain ⟨⟨ddsTopic, qos⟩, harguments, hbuild⟩ := lift_bind_eq_ok.mp hbuild
  obtain ⟨htype, htopic⟩ := h.names hnames
  obtain ⟨hmapped, rfl, hqos⟩ := h.arguments harguments
  cases hbuild
  exact ⟨⟨⟨htype, htopic, hmapped⟩, hqos⟩, rfl⟩

end Building

section Parameters
variable {host : Host}

theorem parameterValue_json (x : Scalar) : parameterValue? x.json = some x.parameter := by cases x <;> rfl

/-- One parameter more. -/
theorem declareParameter_value {node node' : TopologyNode} {name : List UInt8} {x : Scalar}
    (h : declareParameter host node name x.json = .ok node') :
    node'.fqName = node.fqName ∧ node'.coreOr.values = node.coreOr.values.insert name x.parameter := by
  have htakes := takes_of_declareParameter h
  have hfind := (find_coreOr node name).mpr htakes.undeclared
  rw [declareParameter_eq host node name (parameterValue_json x), TopologyNode.declare, params_eq htakes.named] at h
  obtain ⟨core, hcore, h⟩ := bind_eq_ok.mp h
  cases hcore
  obtain ⟨core', hdeclare, h⟩ := bind_eq_ok.mp h
  cases h
  rw [ParameterCore.declare, if_neg htakes.name_ne, hfind] at hdeclare
  simp only [if_pos (type_of_parameterValue (parameterValue_json x))] at hdeclare
  cases hdeclare
  exact ⟨rfl, rfl⟩

theorem declareParameters_values {node node' : TopologyNode} {ps : List (List UInt8 × Scalar)}
    (hnodup : (ps.map Prod.fst).Nodup)
    (h : declareParameters host node (ps.map fun p => (p.1, p.2.json)) = .ok node') :
    node'.fqName = node.fqName ∧ ∀ name, node'.coreOr.values.find? name =
      ((ps.lookup name).map Scalar.parameter).or (node.coreOr.values.find? name) := by
  induction ps generalizing node with
  | nil =>
    cases h
    exact ⟨rfl, fun _ => rfl⟩
  | cons p ps ih =>
    obtain ⟨hnew, hnodup⟩ := List.nodup_cons.mp hnodup
    rw [List.map_cons, declareParameters] at h
    obtain ⟨node₁, hfirst, hrest⟩ := bind_eq_ok.mp h
    obtain ⟨hname₁, hvalues₁⟩ := declareParameter_value hfirst
    obtain ⟨hname, hvalues⟩ := ih hnodup hrest
    refine ⟨hname.trans hname₁, fun name => ?_⟩
    rw [hvalues, hvalues₁]
    by_cases hn : name = p.1
    · subst hn
      have hnone : ps.lookup p.1 = none := by
        rw [List.lookup_eq_none_iff]
        exact fun q hq => bne_iff_ne.mpr (fun heq => hnew (heq ▸ List.mem_map_of_mem hq))
      rw [hnone, AssocMap.find?_insert_self, List.lookup_cons_self]
      rfl
    · rw [AssocMap.find?_insert_ne _ _ hn, List.lookup_cons, beq_false_of_ne hn]

theorem NodeSpec.In.buildParameters {s : NodeSpec} {v : Value} (h : s.In v) {node node' : TopologyNode}
    (hbuild : Topology.buildParameters host node v = .ok node') :
    node'.fqName = node.fqName ∧ ∀ name, node'.coreOr.values.find? name =
      (((s.parameters.getD []).lookup name).map Scalar.parameter).or (node.coreOr.values.find? name) := by
  have haccepts : acceptsMember node (v.find? (literal "parameters")) = true := by
    have hreports := reports_buildParameters host node v
    rw [hbuild] at hreports
    exact (firstFault_own.mp hreports).1
  have hnodup := ((h.accepts node).mp haccepts).1
  rw [Topology.buildParameters, h.parameters] at hbuild
  cases hparameters : s.parameters with
  | none =>
    rw [hparameters] at hbuild
    cases hbuild
    exact ⟨rfl, fun _ => rfl⟩
  | some ps =>
    rw [hparameters] at hbuild hnodup
    exact declareParameters_values hnodup hbuild

end Parameters

section Topologies
variable {host : Host}

/-- A node is added with its endpoints. -/
def World.node (w : World) (entry : NodeEntry) : World :=
  { w with
    nodes := w.nodes ++ [entry.node.fqName]
    endpoints := w.endpoints ++ entry.topics.map (literal "rt" ++ ·) }

theorem foldl_endpoint {α : Type} (topic : α → List UInt8) (l : List α) (w : World) :
    l.foldl (fun w a => w.endpoint (topic a)) w = { w with endpoints := w.endpoints ++ (l.map topic).map (literal "rt" ++ ·) } := by
  induction l generalizing w with
  | nil => simp
  | cons a l ih =>
    rw [List.foldl_cons, ih]
    simp [World.endpoint]

theorem NodeSpec.In.build {s : NodeSpec} {v : Value} (h : s.In v) {w w' : World} {entry : NodeEntry}
    (hbuild : buildNode host v w = .ok entry w') : s.Built host entry ∧ w' = w.node entry := by
  rw [buildNode] at hbuild
  obtain ⟨⟨namespace_, name⟩, hnames, hbuild⟩ := lift_bind_eq_ok.mp hbuild
  obtain ⟨rfl, rfl⟩ := nodeSpec_ok hnames
  obtain ⟨base, hcreate, hbuild⟩ := lift_bind_eq_ok.mp hbuild
  have hbase := createNode_ok hcreate
  rw [h.nodeOf] at hbase
  obtain ⟨⟨⟩, w₁, hadd, hbuild⟩ := run_bind_eq_ok.mp hbuild
  obtain rfl : { w with nodes := w.nodes ++ [base.fqName] } = w₁ := (EStateM.Result.ok.inj hadd).2
  obtain ⟨node, hnode, hbuild⟩ := lift_bind_eq_ok.mp hbuild
  obtain ⟨hname, hvalues⟩ := h.buildParameters hnode
  rw [h.textOf_ns] at hbuild
  obtain ⟨pubs, w₂, hpubs, hbuild⟩ := run_bind_eq_ok.mp hbuild
  obtain ⟨hpublishers, rfl⟩ := mapM_eq_ok (fun p x w pub w' hp => hp.build) h.publishers hpubs
  obtain ⟨subs, w₃, hsubs, hbuild⟩ := run_bind_eq_ok.mp hbuild
  obtain ⟨hsubscriptions, rfl⟩ := mapM_eq_ok (fun e x w sub w' he => he.build) h.subscriptions hsubs
  cases hbuild
  refine ⟨⟨rfl, ⟨base, hbase, hname, hvalues⟩, hpublishers, hsubscriptions⟩, ?_⟩
  rw [foldl_endpoint, foldl_endpoint]
  simp [World.node, NodeEntry.topics, hname]

theorem foldl_node (entries : List NodeEntry) (w : World) :
    entries.foldl World.node w = { w with
      nodes := w.nodes ++ entries.map fun entry => entry.node.fqName
      endpoints := w.endpoints ++ (entries.flatMap NodeEntry.topics).map (literal "rt" ++ ·) } := by
  induction entries generalizing w with
  | nil => simp
  | cons entry entries ih =>
    rw [List.foldl_cons, ih]
    simp [World.node]

theorem Says.build {text : List UInt8} {doc : Value} {specs : List NodeSpec} (hdoc : host.jsonFromDoc text = .ok doc)
    (hmeans : Says doc specs) {w w' : World} {entries : List NodeEntry}
    (hbuild : buildTopology host text w = .ok entries w') :
    List.Forall₂ (NodeSpec.Built host) specs entries ∧ w' = entries.foldl World.node w := by
  obtain ⟨nodes, hnodes, hin⟩ := hmeans
  rw [buildTopology, hdoc] at hbuild
  dsimp only at hbuild
  rw [hnodes] at hbuild
  dsimp only at hbuild
  split_ifs at hbuild
  · cases hbuild
  · exact mapM_eq_ok (fun s v w entry w' hs => hs.build) hin hbuild

/-- Publishing starts, publisher by publisher. -/
theorem startPublishing_eq (entries : List NodeEntry) (w : World) :
    startPublishing entries w = .ok () { w with
      periodic := w.periodic ++
        ((entries.flatMap NodeEntry.publishers).filter fun pub => pub.rateHz.positive).map RawPublisher.topic
      written := w.written ++
        ((entries.flatMap NodeEntry.publishers).filter fun pub => !pub.rateHz.positive).map
          fun pub => (pub.topic, pub.payload) } := by
  rw [startPublishing]
  generalize entries.flatMap NodeEntry.publishers = pubs
  induction pubs generalizing w with
  | nil =>
    rw [List.filter_nil, List.filter_nil, List.map_nil, List.map_nil, List.append_nil, List.append_nil]
    rfl
  | cons pub pubs ih =>
    cases hrate : pub.rateHz.positive with
    | true =>
      have hstart : startPublisher pub w = .ok () { w with periodic := w.periodic ++ [pub.topic] } := by
        rw [startPublisher, hrate]
        rfl
      refine (bind_ok hstart).trans ?_
      rw [ih]
      simp [hrate]
    | false =>
      have hstart : startPublisher pub w = .ok () { w with written := w.written ++ [(pub.topic, pub.payload)] } := by
        rw [startPublisher, hrate]
        rfl
      refine (bind_ok hstart).trans ?_
      rw [ih]
      simp [hrate]

theorem construct_eq_ok {text : List UInt8} {w w' : World} {entries : List NodeEntry} :
    constructGraphExecutor host text w = .ok entries w' ↔ ∃ w₁, buildTopology host text w = .ok entries w₁ ∧
      startPublishing entries w₁ = .ok () w' := by
  rw [constructGraphExecutor, run_bind_eq_ok]
  constructor
  · rintro ⟨entries', w₁, hbuild, hrest⟩
    obtain ⟨⟨⟩, w₂, hstart, hrest⟩ := run_bind_eq_ok.mp hrest
    cases hrest
    exact ⟨w₁, hbuild, hstart⟩
  · rintro ⟨w₁, hbuild, hstart⟩
    exact ⟨entries, w₁, hbuild, run_bind_eq_ok.mpr ⟨(), w', hstart, rfl⟩⟩

/-- What the constructor makes of a document: the nodes it describes, or nothing if one of them is refused. -/
theorem topology_as_described (host : Host) {text : List UInt8} {doc : Value} {specs : List NodeSpec}
    (hdoc : host.jsonFromDoc text = .ok doc) (hmeans : Says doc specs) (w : World) :
    ((∃ entries w', constructGraphExecutor host text w = .ok entries w') ↔
      specs ≠ [] ∧ ∀ s ∈ specs, s.Accepted host) ∧
    ∀ entries w', constructGraphExecutor host text w = .ok entries w' →
      List.Forall₂ (NodeSpec.Built host) specs entries ∧ w' = w.after entries := by
  refine ⟨?_, fun entries w' h => ?_⟩
  · rw [← topology_passed hdoc hmeans, ← (follows_buildTopology host text w).returns_iff]
    constructor
    · rintro ⟨entries, w', h⟩
      obtain ⟨w₁, hbuild, -⟩ := construct_eq_ok.mp h
      exact ⟨entries, w₁, hbuild⟩
    · rintro ⟨entries, w₁, hbuild⟩
      exact ⟨entries, _, construct_eq_ok.mpr ⟨w₁, hbuild, startPublishing_eq entries w₁⟩⟩
  · obtain ⟨w₁, hbuild, hstart⟩ := construct_eq_ok.mp h
    obtain ⟨hbuilt, rfl⟩ := hmeans.build hdoc hbuild
    rw [startPublishing_eq] at hstart
    refine ⟨hbuilt, (EStateM.Result.ok.inj hstart).2.symm.trans ?_⟩
    rw [foldl_node]
    rfl

/-- A talker with a parameter, which writes one payload on `/chatter`. -/
def talkerSpec : NodeSpec where
  name := literal "talker"
  parameters := some [(literal "rate", .int 10)]
  publishers := [⟨⟨literal "chatter", literal "std_msgs/msg/String", some { depth := some (.integer 1) }⟩,
    some [0x00, 0x01, 0x00, 0x00, 0xab], none⟩]

/-- A document that says so. -/
def talkerDocument : Value :=
  .object [(literal "nodes", .array [.object [(literal "name", .string (literal "talker")),
    (literal "parameters", .object [(literal "rate", .integer 10)]),
    (literal "publishers", .array [.object [(literal "payload_hex", .string (literal "00010000aB")),
      (literal "qos", .object [(literal "depth", .integer 1)]), (literal "topic", .string (literal "chatter")),
      (literal "type", .string (literal "std_msgs/msg/String"))]])]])]

theorem talkerDocument_says : Says talkerDocument [talkerSpec] := by
  have hhex : HexText (literal "00010000aB") [0x00, 0x01, 0x00, 0x00, 0xab] :=
    .cons (.inl rfl) (.inl rfl) (.cons (.inl rfl) (.inl rfl) (.cons (.inl rfl) (.inl rfl) (.cons (.inl rfl) (.inl rfl)
      (.cons (.inl rfl) (.inr rfl) .nil))))
  refine ⟨_, rfl, .cons ⟨rfl, rfl, rfl, rfl, .cons ?_ .nil, .nil⟩ .nil⟩
  exact { topic := rfl, type := rfl, qos := ⟨_, rfl, ⟨⟨_, rfl⟩, rfl, rfl, rfl⟩⟩, payload := ⟨_, rfl, hhex⟩, rateHz := rfl }

theorem talkerSpec_accepted : talkerSpec.Accepted (plainHost talkerDocument) := by
  refine ⟨⟨_, rfl, by decide, ?_⟩, ?_, nofun⟩
  · refine List.forall_mem_singleton.mpr ⟨by decide, by decide, ?_, rfl⟩
    rintro core ⟨⟩
  · exact List.forall_mem_singleton.mpr ⟨_, _, _, rfl, rfl, rfl⟩

theorem topology_as_described_talker : ∃ entries,
    constructGraphExecutor (plainHost talkerDocument) [] {} = .ok entries (World.after {} entries) ∧
      List.Forall₂ (NodeSpec.Built (plainHost talkerDocument)) [talkerSpec] entries := by
  have hdoc : (plainHost talkerDocument).jsonFromDoc [] = .ok talkerDocument := rfl
  obtain ⟨hreturns, hbuilt⟩ := topology_as_described (plainHost talkerDocument) hdoc talkerDocument_says {}
  obtain ⟨entries, w', hok⟩ := hreturns.mpr ⟨List.cons_ne_nil _ _, List.forall_mem_singleton.mpr talkerSpec_accepted⟩
  obtain ⟨hall, hw⟩ := hbuilt entries w' hok
  rw [hw] at hok
  exact ⟨entries, hok, hall⟩

end Topologies

end Rcllite.Topology
