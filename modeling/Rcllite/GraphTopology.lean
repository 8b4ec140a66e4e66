import Rcllite.NodeIdentity
import Rcllite.ParameterCreation
import Rcllite.ParameterModel
import Rcllite.Lib.Checks
import Rcllite.Lib.JsonValue

/-! `GraphExecutor`: the nodes and endpoints a topology document describes. Every DDS call succeeds; what is
left to raise is the program itself, the JSON library when a member has another type than it is read as,
and the constructors of registered node classes. -/
namespace Rcllite.Topology
open JsonValue
open Checks (lift)
open Utf8 (literal)

inductive Raised where
  /-- `rcl::Error`, with its message. -/
  | error (message : List UInt8)
  /-- An exception of the JSON library. -/
  | json (e : AccessError)
  /-- Whatever else the constructor of a registered class may throw. -/
  | other
deriving DecidableEq, Repr

def Raised.IsError : Raised → Prop
  | .error _ => True
  | .json _ | .other => False

structure QoS where
  bestEffort : Bool := false
  transientLocal : Bool := false
  depth : ℕ := 10
deriving DecidableEq, Repr

structure RawPublisher where
  topic : List UInt8
  type : List UInt8
  payload : List UInt8
  rateHz : Number
  qos : QoS
deriving DecidableEq, Repr

structure RawSubscription where
  topic : List UInt8
  type : List UInt8
  qos : QoS
deriving DecidableEq, Repr

/-- An `rcl::Node`: its name and the `ParameterCore` it has built, if it was asked for one. -/
structure TopologyNode where
  fqName : List UInt8
  core : Option ParameterCore

structure NodeEntry where
  namespace_ : List UInt8
  node : TopologyNode
  publishers : List RawPublisher
  subscriptions : List RawSubscription

/-- What has happened outside the object under construction: the nodes added to the executor, the DDS names
of the endpoints created, the periodic publishers started, and the payloads written, with their topics. -/
structure World where
  nodes : List (List UInt8) := []
  endpoints : List (List UInt8) := []
  periodic : List (List UInt8) := []
  written : List (List UInt8 × List UInt8) := []
deriving DecidableEq, Repr

abbrev Build := EStateM Raised World

/-- What the hosting binary and its compiler decide. -/
structure Host where
  /-- `vila::JsonFromDoc`, with the `what()` of the exception it throws. -/
  jsonFromDoc : List UInt8 → Except (List UInt8) Value
  /-- `NodeRegistry::CreateByName`: no node for a class that is not registered. -/
  createByName : (cls name namespace_ : List UInt8) → Option (Except Raised TopologyNode)
  /-- Which argument of the two `make_unique` calls is evaluated first: the QoS or the topic name. -/
  qosFirst : Bool
  /-- The clock, as the parameter events stamp it. -/
  now : ℤ

def ofNames {α : Type} : Except (List UInt8) α → Except Raised α := Except.mapError .error

def ofJson {α : Type} : Except AccessError α → Except Raised α := Except.mapError .json

section Values

def nibble (c : UInt8) : Option UInt8 :=
  if 0x30 ≤ c ∧ c ≤ 0x39 then some (c - 0x30)
  else if 0x61 ≤ c ∧ c ≤ 0x66 then some (c - 0x61 + 10)
  else if 0x41 ≤ c ∧ c ≤ 0x46 then some (c - 0x41 + 10)
  else none

/-- The loop of `payload_from_hex`. -/
def hexBytes : List UInt8 → Option (List UInt8)
  | hi :: lo :: hex => do
    let h ← nibble hi
    let l ← nibble lo
    let bytes ← hexBytes hex
    some ((h <<< 4 ||| l) :: bytes)
  -- a single digit is not left over: the length is even here
  | _ => some []

def payloadFromHex (hex what : List UInt8) : Except Raised (List UInt8) :=
  if hex.length % 2 ≠ 0 then .error (.error (what ++ literal ": odd hex length"))
  else match hexBytes hex with
    | none => .error (.error (what ++ literal ": invalid hex digit"))
    | some bytes => .ok bytes

def defaultPayload : List UInt8 := [0x00, 0x01, 0x00, 0x00]

def parseQos (qos : Value) (base : QoS) : Except Raised QoS :=
  match qos with
  | .object _ => do
    let reliability ← ofJson (qos.valueOr Value.getString (literal "reliability") (literal "reliable"))
    let base := if reliability = literal "best_effort" then { base with bestEffort := true } else base
    let durability ← ofJson (qos.valueOr Value.getString (literal "durability") (literal "volatile"))
    let base := if durability = literal "transient_local" then { base with transientLocal := true } else base
    if qos.contains (literal "depth") then do
      let depth ← ofJson (qos.fetch (literal "depth") >>= Value.getNumber)
      .ok { base with depth := depth.toSize }
    else .ok base
  -- anything else is passed over without a report
  | _ => .ok base

/-- The value a parameter is declared with. -/
def parameterValue? : Value → Option ParameterValue
  | .boolean b => some { type := ⟨1⟩, boolValue := b }
  | .integer n => some { type := ⟨2⟩, integerValue := BitVec.ofInt 64 n }
  | .float bits => some { type := ⟨3⟩, doubleValue := bits }
  | .string s => some { type := ⟨4⟩, stringValue := s }
  | .null | .array _ | .object _ => none

end Values

section Nodes
variable (host : Host)

/-- The services of the parameters of a node, whose names are checked as they are created. -/
def createServices (fqName : List UInt8) : List ParameterService → Except Raised Unit
  | [] => .ok ()
  | service :: rest => do
    let _ ← ofNames (rosToDdsRequestTopicName (fqName ++ literal "/" ++ service.token))
    let _ ← ofNames (rosToDdsReplyTopicName (fqName ++ literal "/" ++ service.token))
    createServices fqName rest

/-- `Node::params`: the first call builds the core. -/
def TopologyNode.params (node : TopologyNode) : Except Raised ParameterCore :=
  match node.core with
  | some core => .ok core
  | none => do
    createServices node.fqName ParameterService.all
    .ok (ParameterCore.new node.fqName)

def ofParameter : Except ParameterError Unit × ParameterCore → Except Raised ParameterCore
  | (.ok (), core) => .ok core
  | (.error (.invalidArguments message), _) | (.error (.internalError message), _) => .error (.error message)

/-- `node.declare_parameter(name, value)` -/
def TopologyNode.declare (node : TopologyNode) (name : List UInt8) (value : ParameterValue) :
    Except Raised TopologyNode := do
  let core ← node.params
  let core ← ofParameter (core.declare ⟨host.now, true⟩ name value)
  .ok { node with core := some core }

def declareParameter (node : TopologyNode) (name : List UInt8) (value : Value) : Except Raised TopologyNode :=
  match parameterValue? value with
  | some v => node.declare host name v
  | none => .error (.error (literal "node " ++ node.fqName ++ literal ": parameter '" ++ name ++
      literal "' must be bool/int/double/string"))

/-- The loop over the members of `parameters`. -/
def declareParameters (node : TopologyNode) : List (List UInt8 × Value) → Except Raised TopologyNode
  | [] => .ok node
  | (name, value) :: rest => do
    let node ← declareParameter host node name value
    declareParameters node rest

def endpointQos (spec : Value) : Except Raised QoS := do
  let qos ← ofJson (spec.valueOr .ok (literal "qos") (.object []))
  parseQos qos {}

/-- The topic and QoS arguments of the writer or reader, in the order the compiler takes them. -/
def endpointArguments (rosTopic : List UInt8) (spec : Value) : Except Raised (List UInt8 × QoS) :=
  if host.qosFirst then do
    let qos ← endpointQos spec
    let topic ← ofNames (rosToDdsTopicName rosTopic)
    .ok (topic, qos)
  else do
    let topic ← ofNames (rosToDdsTopicName rosTopic)
    let qos ← endpointQos spec
    .ok (topic, qos)

/-- The type and the topic of an endpoint, which both kinds read alike. -/
def endpointNames (what namespace_ : List UInt8) (spec : Value) : Except Raised (List UInt8 × List UInt8) :=
  if spec.contains (literal "topic") && spec.contains (literal "type") then do
    let type ← ofJson (spec.fetch (literal "type") >>= Value.getString)
    let type ← ofNames (ddsTypeName type)
    let topic ← ofJson (spec.fetch (literal "topic") >>= Value.getString)
    let topic ← ofNames (expandTopicName topic namespace_)
    .ok (type, topic)
  else .error (.error (what ++ literal ": needs 'topic' and 'type'"))

def publisherPayload (what : List UInt8) (spec : Value) : Except Raised (List UInt8) :=
  if spec.contains (literal "payload_hex") then do
    let hex ← ofJson (spec.fetch (literal "payload_hex") >>= Value.getString)
    payloadFromHex hex what
  else .ok defaultPayload

def buildPublisher (fqName namespace_ : List UInt8) (spec : Value) : Build RawPublisher := do
  let what := literal "node " ++ fqName ++ literal " publisher"
  let (type, topic) ← lift (endpointNames what namespace_ spec)
  let payload ← lift (publisherPayload what spec)
  let rateHz ← lift (ofJson (spec.valueOr Value.getNumber (literal "rate_hz") (.integer 0)))
  let (ddsTopic, qos) ← lift (endpointArguments host topic spec)
  modify fun w => { w with endpoints := w.endpoints ++ [ddsTopic] }
  return ⟨topic, type, payload, rateHz, qos⟩

def buildSubscription (fqName namespace_ : List UInt8) (spec : Value) : Build RawSubscription := do
  let what := literal "node " ++ fqName ++ literal " subscription"
  let (type, topic) ← lift (endpointNames what namespace_ spec)
  let (ddsTopic, qos) ← lift (endpointArguments host topic spec)
  modify fun w => { w with endpoints := w.endpoints ++ [ddsTopic] }
  return ⟨topic, type, qos⟩

/-- The node itself: of a registered class if the document names one, else a plain one. -/
def createNode (spec : Value) (name namespace_ : List UInt8) : Except Raised TopologyNode :=
  if spec.contains (literal "class") then do
    let cls ← ofJson (spec.fetch (literal "class") >>= Value.getString)
    match host.createByName cls name namespace_ with
    -- whatever the constructor throws passes through
    | some node => node
    | none => .error (.error (literal "node " ++ namespace_ ++ literal "/" ++ name ++ literal ": class '" ++ cls ++
        literal "' is not registered; link its library (alwayslink = 1) into the hosting binary"))
  else do
    let names ← ofNames (nodeNames name namespace_)
    .ok ⟨names.2, none⟩

def buildParameters (node : TopologyNode) (spec : Value) : Except Raised TopologyNode :=
  match spec.find? (literal "parameters") with
  | none => .ok node
  | some (.object members) => declareParameters host node members
  | some _ => .error (.error (literal "node " ++ node.fqName ++ literal ": 'parameters' must be an object"))

/-- The elements of a member, if there is one. -/
def elementsOf (spec : Value) (key : List UInt8) : List Value := ((spec.find? key).map Value.elements).getD []

/-- The names of a node, as the document gives them. -/
def nodeSpec (spec : Value) : Except Raised (List UInt8 × List UInt8) :=
  if spec.contains (literal "name") then do
    let namespace_ ← ofJson (spec.valueOr Value.getString (literal "namespace") (literal "/"))
    let name ← ofJson (spec.fetch (literal "name") >>= Value.getString)
    .ok (namespace_, name)
  else .error (.error (literal "every node needs a 'name'"))

def buildNode (spec : Value) : Build NodeEntry := do
  let (namespace_, name) ← lift (nodeSpec spec)
  let node ← lift (createNode host spec name namespace_)
  -- `executor.add_node`: the node stays added when a later member is refused
  modify fun w => { w with nodes := w.nodes ++ [node.fqName] }
  let node ← lift (buildParameters host node spec)
  let publishers ← (elementsOf spec (literal "publishers")).mapM (buildPublisher host node.fqName namespace_)
  let subscriptions ← (elementsOf spec (literal "subscriptions")).mapM (buildSubscription host node.fqName namespace_)
  return ⟨namespace_, node, publishers, subscriptions⟩

/-- The constructor of `GraphExecutor::Impl`. -/
def buildTopology (text : List UInt8) : Build (List NodeEntry) :=
  match host.jsonFromDoc text with
  | .error what => throw (.error (literal "topology is not valid JSON: " ++ what))
  | .ok doc =>
    match doc.find? (literal "nodes") with
    | some (.array nodes) =>
      if nodes.isEmpty then throw (.error (literal "topology has no nodes")) else nodes.mapM (buildNode host)
    -- also for a document that is no object
    | _ => throw (.error (literal "topology must be an object with a 'nodes' array"))

end Nodes

/-- `start_publishing`, for one publisher. -/
def startPublisher (pub : RawPublisher) : Build Unit :=
  -- a thread of its own does the periodic writing; everything else is written once, here
  if pub.rateHz.positive then modify fun w => { w with periodic := w.periodic ++ [pub.topic] }
  else modify fun w => { w with written := w.written ++ [(pub.topic, pub.payload)] }

def startPublishing (entries : List NodeEntry) : Build Unit :=
  (entries.flatMap NodeEntry.publishers).forM startPublisher

/-- The constructor of `GraphExecutor`. -/
def constructGraphExecutor (host : Host) (text : List UInt8) : Build (List NodeEntry) := do
  let entries ← buildTopology host text
  startPublishing entries
  return entries

end Rcllite.Topology
