import Mathlib.Data.Nat.Digits.Defs
import Rcllite.JsonWriter
import Rcllite.Lib.SortBy
import Rcllite.MonitorDecoding
import Rcllite.Names

/-! `GraphMonitor::snapshot_json`. The document is built in two steps: what the six sections list, and how
it is written. Containers of the source that are ordered are lists here, put into their order where the
source iterates them. -/
namespace Rcllite
open Utf8 (literal)

section Messages

/-- `rmw_dds_common/msg/Gid`. -/
abbrev Gid := List.Vector (BitVec 8) 24

/-- `rmw_dds_common/msg/NodeEntitiesInfo`. -/
structure NodeEntitiesInfo where
  nodeNamespace : List UInt8
  nodeName : List UInt8
  readerGidSeq : List Gid
  writerGidSeq : List Gid

def NodeEntitiesInfo.ofVal (v : nodeEntitiesInfoSchema.Val) : NodeEntitiesInfo :=
  let (ns, name, readers, writers, _) := v
  let readers : List gidSchema.Val := readers
  let writers : List gidSchema.Val := writers
  ⟨ns, name, readers.map Prod.fst, writers.map Prod.fst⟩

/-- `node_entities_info_seq` of an announcement. -/
def nodeInfos (msg : participantEntitiesInfoSchema.Val) : List NodeEntitiesInfo :=
  let seq : List nodeEntitiesInfoSchema.Val := msg.2.1
  seq.map NodeEntitiesInfo.ofVal

/-- `builtin_interfaces/msg/Time`. -/
def timeSchema : Members :=
  .cons "sec" .scalar (.prim .int32) <|
  .cons "nanosec" .scalar (.prim .uint32) .nil

/-- `rcl_interfaces/msg/Log`. -/
def logSchema : Members :=
  .cons "stamp" .scalar (.nested "builtin_interfaces" "Time" timeSchema) <|
  .cons "level" .scalar (.prim .uint8) <|
  .cons "name" .scalar .string <|
  .cons "msg" .scalar .string <|
  .cons "file" .scalar .string <|
  .cons "function" .scalar .string <|
  .cons "line" .scalar (.prim .uint32) .nil

structure LogRecord where
  sec : BitVec 32
  nanosec : BitVec 32
  level : BitVec 8
  name : List UInt8
  msg : List UInt8
  file : List UInt8
  function : List UInt8
  line : BitVec 32

def LogRecord.ofVal (v : logSchema.Val) : LogRecord :=
  let (((sec, nanosec, _) : BitVec 32 × BitVec 32 × Unit), level, name, msg, file, function, line, _) := v
  ⟨sec, nanosec, level, name, msg, file, function, line⟩

end Messages

/-- What the monitor thread keeps for `snapshot_json`. -/
abbrev GraphState := Monitor participantEntitiesInfoSchema logSchema

/-- `std::map<dds_guid_t, T, GuidLess>` as it is iterated. -/
def inGuidOrder {α : Type} (m : AssocMap Guid α) : List (Guid × α) := SortBy.sortBy (fun e => e.1.toList) m.entries

/-- The `Gid` of the wire only carries a guid in its first bytes. -/
def gidMatches (gid : Gid) (g : Guid) : Bool := (gid.toList.take 16).map UInt8.ofBitVec = g.toList

def guidHex (g : Guid) : List UInt8 := g.toList.flatMap (fun byte : UInt8 => [hexDigit (byte >>> 4), hexDigit (byte &&& 0xf)])

/-- Topics that carry real traffic but would spray edges between every node and every consumer. -/
def isPlumbingTopic (ddsTopic : List UInt8) : Bool :=
  ddsTopic = literal "ros_discovery_info" || ddsTopic = literal "rt/rosout" ||
    ddsTopic = literal "rt/parameter_events" || (literal "DCPS").isPrefixOf ddsTopic || (literal "d*").isPrefixOf ddsTopic

/-- Where a node's name comes from. -/
inductive NodeSource where
  | discovery
  | userData
  | anonymous
deriving DecidableEq

namespace NodeSource

def text : NodeSource → List UInt8
  | .discovery => literal "discovery"
  | .userData => literal "user_data"
  | .anonymous => literal "anonymous"

def rank : NodeSource → ℕ
  | .discovery => 3
  | .userData => 2
  | .anonymous => 1

end NodeSource

structure NodeAttrib where
  rank : ℕ
  source : NodeSource

/-- The lambda `note_node`: a better source replaces the one on record. -/
def noteNode (nodes : AssocMap (List UInt8) NodeAttrib) (note : List UInt8 × NodeSource) :
    AssocMap (List UInt8) NodeAttrib :=
  let attrib := (nodes.find? note.1).getD ⟨0, .anonymous⟩
  nodes.insert note.1 (if attrib.rank < note.2.rank then ⟨note.2.rank, note.2⟩ else attrib)

/-- The lambda `owns`, for either list of a node. -/
def NodeEntitiesInfo.owns (n : NodeEntitiesInfo) (endpoint : Guid) : Bool :=
  n.writerGidSeq.any (gidMatches · endpoint) || n.readerGidSeq.any (gidMatches · endpoint)

/-- A live endpoint with the node it belongs to. -/
structure LiveEndpoint where
  guid : Guid
  info : EndpointInfo
  node : List UInt8
  source : NodeSource

structure TopicAgg where
  type : List UInt8
  writers : List (List UInt8)
  readers : List (List UInt8)

/-- One turn of the loop that aggregates endpoints per DDS topic. -/
def addEndpoint (topics : AssocMap (List UInt8) TopicAgg) (e : LiveEndpoint) : AssocMap (List UInt8) TopicAgg :=
  let agg := (topics.find? e.info.topic).getD ⟨[], [], []⟩
  topics.insert e.info.topic
    (if e.info.writer then { agg with type := e.info.type, writers := e.node :: agg.writers }
      else { agg with type := e.info.type, readers := e.node :: agg.readers })

/-- `std::map<std::string, TopicAgg>` as it is iterated. -/
def inNameOrder {α : Type} (m : AssocMap (List UInt8) α) : List (List UInt8 × α) := SortBy.sortBy Prod.fst m.entries

/-- `std::set<std::string>` as it is iterated. -/
def inOrder (names : List (List UInt8)) : List (List UInt8) := SortBy.toSet id names

inductive EdgeKind where
  | topic
  | service
deriving DecidableEq

structure Edge where
  source : List UInt8
  target : List UInt8
  name : List UInt8
  kind : EdgeKind
deriving DecidableEq

/-- The data-flow edges of one DDS topic. -/
def topicEdges (ddsTopic : List UInt8) (agg : TopicAgg) : List Edge :=
  if isPlumbingTopic ddsTopic then []
  else if (literal "rq/").isPrefixOf ddsTopic ∧ 10 < ddsTopic.length ∧
      (ddsTopic.drop (ddsTopic.length - 7)).take 7 = literal "Request" then
    let service := literal "/" ++ (ddsTopic.drop 3).take (ddsTopic.length - 3 - 7)
    agg.writers.flatMap (fun client => agg.readers.map (fun server => ⟨client, server, service, .service⟩))
  else if (literal "rt/").isPrefixOf ddsTopic ∧ 3 < ddsTopic.length then
    let topic := literal "/" ++ ddsTopic.drop 3
    agg.writers.flatMap (fun writer => agg.readers.map (fun reader => ⟨writer, reader, topic, .topic⟩))
  else []

structure TopicEntry where
  topic : List UInt8
  type : List UInt8
  publishers : List (List UInt8)
  subscriptions : List (List UInt8)

structure ServiceEntry where
  service : List UInt8
  type : List UInt8
  servers : List (List UInt8)
  clients : List (List UInt8)

/-- One turn of the loop of the section `topics`. -/
def topicEntry (ddsTopic : List UInt8) (agg : TopicAgg) : Option TopicEntry :=
  if ¬ (literal "rt/").isPrefixOf ddsTopic ∨ ddsTopic.length < 4 ∨ isPlumbingTopic ddsTopic then none
  else some ⟨literal "/" ++ ddsTopic.drop 3, agg.type, inOrder agg.writers, inOrder agg.readers⟩

/-- One turn of the loop of the section `services`. -/
def serviceEntry (ddsTopic : List UInt8) (agg : TopicAgg) : Option ServiceEntry :=
  if ¬ (literal "rq/").isPrefixOf ddsTopic ∨ ddsTopic.length < 11 ∨
      (ddsTopic.drop (ddsTopic.length - 7)).take 7 ≠ literal "Request" then none
  else some ⟨literal "/" ++ (ddsTopic.drop 3).take (ddsTopic.length - 3 - 7), agg.type, inOrder agg.readers,
    inOrder agg.writers⟩

/-- What the six sections list. -/
structure Snapshot where
  nodes : List (List UInt8 × NodeSource)
  topics : List TopicEntry
  services : List ServiceEntry
  edges : List Edge
  endpoints : List LiveEndpoint
  logs : List LogRecord

/-- `std::tuple` compares component by component; of `"topic"` and `"service"` it compares the addresses,
and either literal may have the lower one. -/
def edgeKey (serviceFirst : Bool) (e : Edge) : List (List UInt8) :=
  [e.source, e.target, e.name, [if decide (e.kind = .service) = serviceFirst then 0 else 1]]

namespace Monitor

/-- The node that owns `endpoint`. -/
def resolveNode (m : GraphState) (participant endpoint : Guid) : Except (List UInt8) (List UInt8 × NodeSource) := do
  match (m.discovery.find? participant).bind (fun msg => (nodeInfos msg).find? (fun n => n.owns endpoint)) with
  | some n => return (← makeFqNodeName n.nodeNamespace n.nodeName, .discovery)
  | none =>
    match m.participants.find? participant with
    | some (c :: enclave) => return (c :: enclave, .userData)
    | _ => return (literal "participant:" ++ guidHex participant, .anonymous)

/-- The endpoints of others, each with its node. -/
def live (self : Guid) (m : GraphState) : Except (List UInt8) (List LiveEndpoint) :=
  ((inGuidOrder m.endpoints).filter (fun e => e.2.participant ≠ self)).mapM (fun e => do
    let owner ← m.resolveNode e.2.participant e.1
    return ⟨e.1, e.2, owner.1, owner.2⟩)

/-- The node infos of others, in the order in which they are noted. -/
def announced (self : Guid) (m : GraphState) : List NodeEntitiesInfo :=
  ((inGuidOrder m.discovery).filter (fun d => d.1 ≠ self)).flatMap (fun d => nodeInfos d.2)

/-- The enclaves of others that are not empty. -/
def enclaves (self : Guid) (m : GraphState) : List (List UInt8) :=
  ((inGuidOrder m.participants).filter (fun p => p.1 ≠ self ∧ p.2 ≠ [])).map Prod.snd

/-- The six sections, from what was resolved. -/
def sections (serviceFirst : Bool) (m : GraphState) (live : List LiveEndpoint)
    (notes : List (List UInt8 × NodeSource)) : Snapshot :=
  let nodes := notes.foldl noteNode .empty
  let topics := inNameOrder (live.foldl addEndpoint .empty)
  { nodes := (inNameOrder nodes).map (fun n => (n.1, n.2.source))
    topics := topics.filterMap (fun t => topicEntry t.1 t.2)
    services := topics.filterMap (fun t => serviceEntry t.1 t.2)
    edges := SortBy.toSet (edgeKey serviceFirst) (topics.flatMap (fun t => topicEdges t.1 t.2))
    endpoints := live
    logs := m.logs.map LogRecord.ofVal }

/-- `snapshot_json` up to the writing of the document. -/
def snapshot (serviceFirst : Bool) (self : Guid) (m : GraphState) : Except (List UInt8) Snapshot := do
  let live ← m.live self
  let names ← (m.announced self).mapM (fun n => makeFqNodeName n.nodeNamespace n.nodeName)
  return m.sections serviceFirst live
    (live.map (fun e => (e.node, e.source)) ++ names.map (fun name => (name, .discovery)) ++
      (m.enclaves self).map (fun enclave => (enclave, .userData)))

end Monitor

section Writing

/-- `std::to_string` of an unsigned number. -/
def decimal (n : ℕ) : List UInt8 :=
  if n = 0 then [0x30] else (Nat.digits 10 n).reverse.map (fun d => 0x30 + UInt8.ofNat d)

/-- `std::to_string` of a signed number. -/
def signedDecimal (z : ℤ) : List UInt8 := if z < 0 then 0x2d :: decimal z.natAbs else decimal z.natAbs

def dumpNames (names : List (List UInt8)) : List UInt8 := Json.array (names.map jsonEscapeString)

def EdgeKind.text : EdgeKind → List UInt8
  | .topic => literal "topic"
  | .service => literal "service"

def dumpNode (n : List UInt8 × NodeSource) : List UInt8 :=
  Json.object [(literal "name", jsonEscapeString n.1), (literal "source", jsonEscapeString n.2.text)]

def TopicEntry.dump (t : TopicEntry) : List UInt8 :=
  Json.object [(literal "topic", jsonEscapeString t.topic), (literal "type", jsonEscapeString t.type),
    (literal "publishers", dumpNames t.publishers), (literal "subscriptions", dumpNames t.subscriptions)]

def ServiceEntry.dump (s : ServiceEntry) : List UInt8 :=
  Json.object [(literal "service", jsonEscapeString s.service), (literal "type", jsonEscapeString s.type),
    (literal "servers", dumpNames s.servers), (literal "clients", dumpNames s.clients)]

def Edge.dump (e : Edge) : List UInt8 :=
  Json.object [(literal "source", jsonEscapeString e.source), (literal "target", jsonEscapeString e.target),
    (literal "topic", jsonEscapeString e.name), (literal "kind", jsonEscapeString e.kind.text)]

def LiveEndpoint.dump (e : LiveEndpoint) : List UInt8 :=
  Json.object [(literal "gid", 0x22 :: guidHex e.guid ++ [0x22]),
    (literal "participant", 0x22 :: guidHex e.info.participant ++ [0x22]), (literal "node", jsonEscapeString e.node),
    (literal "topic", jsonEscapeString e.info.topic), (literal "type", jsonEscapeString e.info.type),
    (literal "kind", jsonEscapeString (if e.info.writer then literal "publisher" else literal "subscription"))]

def LogRecord.dump (l : LogRecord) : List UInt8 :=
  Json.object [(literal "stamp", signedDecimal (l.sec.toInt * 1000000000 + l.nanosec.toNat)),
    (literal "level", decimal l.level.toNat), (literal "name", jsonEscapeString l.name),
    (literal "msg", jsonEscapeString l.msg), (literal "file", jsonEscapeString l.file),
    (literal "function", jsonEscapeString l.function), (literal "line", decimal l.line.toNat)]

/-- The document. -/
def Snapshot.dump (s : Snapshot) : List UInt8 :=
  Json.object [(literal "nodes", Json.array (s.nodes.map dumpNode)),
    (literal "topics", Json.array (s.topics.map TopicEntry.dump)),
    (literal "services", Json.array (s.services.map ServiceEntry.dump)),
    (literal "edges", Json.array (s.edges.map Edge.dump)),
    (literal "endpoints", Json.array (s.endpoints.map LiveEndpoint.dump)),
    (literal "logs", Json.array (s.logs.map LogRecord.dump))]

def Monitor.snapshotJson (serviceFirst : Bool) (self : Guid) (m : GraphState) : Except (List UInt8) (List UInt8) := do
  return (← m.snapshot serviceFirst self).dump

end Writing

end Rcllite
