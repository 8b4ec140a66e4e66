import Rcllite.DocumentStructure
import Rcllite.Lib.JsonReader
import Rcllite.PyComposition
import Rcllite.SnapshotExact

/-! `graph.py`: the snapshot as Python gets it, and the directed graph it is turned into. The document is
read back as what the six sections list; the graph keeps one label for each pair of nodes. -/
namespace Rcllite
open JsonValue (Value)
open Utf8 (literal)

section Values

def namesValue (names : List (List UInt8)) : Value := .array (names.map .string)

def nodeValue (n : List UInt8 × NodeSource) : Value :=
  .object [(literal "name", .string n.1), (literal "source", .string n.2.text)]

def TopicEntry.value (t : TopicEntry) : Value :=
  .object [(literal "topic", .string t.topic), (literal "type", .string t.type),
    (literal "publishers", namesValue t.publishers), (literal "subscriptions", namesValue t.subscriptions)]

def ServiceEntry.value (s : ServiceEntry) : Value :=
  .object [(literal "service", .string s.service), (literal "type", .string s.type),
    (literal "servers", namesValue s.servers), (literal "clients", namesValue s.clients)]

def Edge.value (e : Edge) : Value :=
  .object [(literal "source", .string e.source), (literal "target", .string e.target),
    (literal "topic", .string e.name), (literal "kind", .string e.kind.text)]

def LiveEndpoint.value (e : LiveEndpoint) : Value :=
  .object [(literal "gid", .string (guidHex e.guid)), (literal "participant", .string (guidHex e.info.participant)),
    (literal "node", .string e.node), (literal "topic", .string e.info.topic), (literal "type", .string e.info.type),
    (literal "kind", .string (if e.info.writer then literal "publisher" else literal "subscription"))]

def LogRecord.value (l : LogRecord) : Value :=
  .object [(literal "stamp", .integer (l.sec.toInt * 1000000000 + l.nanosec.toNat)),
    (literal "level", .integer l.level.toNat), (literal "name", .string l.name), (literal "msg", .string l.msg),
    (literal "file", .string l.file), (literal "function", .string l.function), (literal "line", .integer l.line.toNat)]

/-- What the six sections say, as one value. -/
def Snapshot.value (s : Snapshot) : Value :=
  .object [(literal "nodes", .array (s.nodes.map nodeValue)), (literal "topics", .array (s.topics.map TopicEntry.value)),
    (literal "services", .array (s.services.map ServiceEntry.value)), (literal "edges", .array (s.edges.map Edge.value)),
    (literal "endpoints", .array (s.endpoints.map LiveEndpoint.value)), (literal "logs", .array (s.logs.map LogRecord.value))]

def StatusEntry.value (counter : List UInt8) (e : StatusEntry) : Value :=
  .object [(literal "topic", .string e.topic), (literal "type", .string e.type), (counter, .integer e.count.toNat)]

def StatusNode.value (n : StatusNode) : Value :=
  .object [(literal "name", .string n.fqName),
    (literal "publishers", .array (n.publishers.map (StatusEntry.value (literal "published")))),
    (literal "subscriptions", .array (n.subscriptions.map (StatusEntry.value (literal "received"))))]

def statusValue (nodes : List StatusNode) : Value :=
  .object [(literal "nodes", .array (nodes.map StatusNode.value))]

end Values

section Numbers

theorem digits?_decimal {n : ℕ} (hn : n ≠ 0) : Json.digits? (decimal n) = some n := by
  have hdigit : ∀ d < 10, Json.digit? (0x30 + UInt8.ofNat d) = some d := by decide
  have hall : ∀ ds : List ℕ, (∀ d ∈ ds, d < 10) →
      (ds.map (fun d => 0x30 + UInt8.ofNat d)).mapM Json.digit? = some ds := by
    intro ds hds
    induction ds with
    | nil => rfl
    | cons d ds ih =>
      obtain ⟨hd, hds⟩ := List.forall_mem_cons.mp hds
      rw [List.map_cons, List.mapM_cons, hdigit d hd, ih hds]
      rfl
  have hlt : ∀ d ∈ (Nat.digits 10 n).reverse, d < 10 :=
    fun d hd => Nat.digits_lt_base (by decide) (List.mem_reverse.mp hd)
  have hvalue : (Nat.digits 10 n).reverse.foldl (fun n d => 10*n + d) 0 = n := by
    rw [List.foldl_reverse]
    conv_rhs => rw [← Nat.ofDigits_digits 10 n, Nat.ofDigits_eq_foldr]
    congr 1
    funext d k
    exact Nat.add_comm _ _
  rw [Json.digits?, decimal, if_neg hn, hall _ hlt, Option.map_some, hvalue]

/-- A number with few enough digits is read back. -/
theorem natural?_decimal {n : ℕ} (hn : (Nat.digits 10 n).length ≤ 4300) : Json.natural? (decimal n) = some n := by
  by_cases h0 : n = 0
  · subst h0
    rfl
  · have hlen : (decimal n).length ≤ 4300 := by rwa [decimal, if_neg h0, List.length_map, List.length_reverse]
    rw [(number_decimal n).natural? hlen, digits?_decimal h0]

variable {float : List UInt8 → Option Value}

theorem scalar?_decimal {n : ℕ} (hn : (Nat.digits 10 n).length ≤ 4300) :
    Json.scalar? float (decimal n) = some (.integer n) := by
  have hdigits := (number_decimal n).forall_digit
  have hint : Json.integer? (decimal n) = some (n : ℤ) := by
    unfold Json.integer?
    split
    · rename_i heq
      exact absurd (hdigits 0x2d (heq ▸ List.mem_cons_self)) (by decide)
    · rw [natural?_decimal hn, Option.map_some]
  unfold Json.scalar?
  -- none of the three names begins with a digit
  have hname : ∀ x b, ¬ Json.Digit x → decimal n ≠ x :: b :=
    fun x b hx heq => hx (hdigits x (heq ▸ List.mem_cons_self))
  rw [if_neg (hname _ _ (by decide)), if_neg (hname _ _ (by decide)), if_neg (hname _ _ (by decide)), hint]

theorem scalar?_signedDecimal {z : ℤ} (hz : (Nat.digits 10 z.natAbs).length ≤ 4300) :
    Json.scalar? float (signedDecimal z) = some (.integer z) := by
  unfold signedDecimal
  split_ifs with hneg
  · have hint : Json.integer? (0x2d :: decimal z.natAbs) = some z := by
      rw [Json.integer?, natural?_decimal hz, Option.map_some]
      exact congrArg some (by omega)
    unfold Json.scalar?
    rw [if_neg (by simp), if_neg (by simp), if_neg (by simp), hint]
  · rw [scalar?_decimal hz]
    exact congrArg (fun k => some (Value.integer k)) (by omega)

theorem digits_length {n : ℕ} (hn : n < 2^64) : (Nat.digits 10 n).length ≤ 4300 := by
  have hlen : (Nat.digits 10 n).length ≤ 20 :=
    (Nat.digits_length_le_iff (by decide) n).mpr (Nat.lt_trans hn (by norm_num))
  omega

theorem reads_decimal {n : ℕ} (hn : n < 2^64) : Json.Reads float (decimal n) (.integer n) := by
  refine .scalar ?_ (fun x hx => ((number_decimal n).forall_digit x hx).not_isDelimiter)
    (scalar?_decimal (digits_length hn))
  intro h
  have hnum := number_decimal n
  rw [h] at hnum
  cases hnum

theorem reads_signedDecimal {z : ℤ} (hz : z.natAbs < 2^64) : Json.Reads float (signedDecimal z) (.integer z) := by
  have hdigits := (number_decimal z.natAbs).forall_digit
  refine .scalar ?_ ?_ (scalar?_signedDecimal (digits_length hz))
  · unfold signedDecimal
    split_ifs
    · exact List.cons_ne_nil _ _
    · intro h
      have hnum := number_decimal z.natAbs
      rw [h] at hnum
      cases hnum
  · unfold signedDecimal
    split_ifs
    · exact List.forall_mem_cons.mpr ⟨by decide, fun x hx => (hdigits x hx).not_isDelimiter⟩
    · exact fun x hx => (hdigits x hx).not_isDelimiter

end Numbers

section Documents
variable {float : List UInt8 → Option Value}

theorem reads_escaped (s : List UInt8) : Json.Reads float (jsonEscapeString s) (.string s) :=
  .string (lexes_jsonEscapeString s)

/-- A section, entry by entry. -/
theorem reads_section {α : Type} {dump : α → List UInt8} {value : α → Value}
    (h : ∀ a, Json.Reads float (dump a) (value a)) (l : List α) :
    Json.Reads float (Json.array (l.map dump)) (.array (l.map value)) := by
  apply Json.Reads.array
  rw [List.forall₂_map_left_iff, List.forall₂_map_right_iff]
  exact List.forall₂_same.mpr (fun a _ => h a)

theorem reads_names (names : List (List UInt8)) : Json.Reads float (dumpNames names) (namesValue names) :=
  reads_section reads_escaped names

theorem reads_guid (g : Guid) : Json.Reads float (0x22 :: guidHex g ++ [0x22]) (.string (guidHex g)) :=
  .string (Json.lexes_plainString (guidHex_plain g))

theorem reads_log (l : LogRecord) : Json.Reads float l.dump l.value := by
  have hstamp : (l.sec.toInt * 1000000000 + (l.nanosec.toNat : ℤ)).natAbs < 2^64 := by
    have hlow := l.sec.le_toInt
    have hhigh := l.sec.toInt_lt
    have hnanosec := l.nanosec.isLt
    omega
  have hlevel : l.level.toNat < 2^64 := l.level.isLt.trans (by decide)
  have hline : l.line.toNat < 2^64 := l.line.isLt.trans (by decide)
  exact .object rfl rfl (.cons ⟨rfl, reads_signedDecimal hstamp⟩ (.cons ⟨rfl, reads_decimal hlevel⟩
    (.cons ⟨rfl, reads_escaped _⟩ (.cons ⟨rfl, reads_escaped _⟩ (.cons ⟨rfl, reads_escaped _⟩
    (.cons ⟨rfl, reads_escaped _⟩ (.cons ⟨rfl, reads_decimal hline⟩ .nil)))))))

/-- The document of `snapshot_json`. -/
theorem reads_dump (s : Snapshot) : Json.Reads float s.dump s.value := by
  refine .object rfl rfl (.cons ⟨rfl, reads_section ?_ _⟩ (.cons ⟨rfl, reads_section ?_ _⟩
    (.cons ⟨rfl, reads_section ?_ _⟩ (.cons ⟨rfl, reads_section ?_ _⟩ (.cons ⟨rfl, reads_section ?_ _⟩
    (.cons ⟨rfl, reads_section reads_log _⟩ .nil))))))
  · intro n
    exact .object rfl rfl (.cons ⟨rfl, reads_escaped _⟩ (.cons ⟨rfl, reads_escaped _⟩ .nil))
  · intro t
    exact .object rfl rfl (.cons ⟨rfl, reads_escaped _⟩ (.cons ⟨rfl, reads_escaped _⟩
      (.cons ⟨rfl, reads_names _⟩ (.cons ⟨rfl, reads_names _⟩ .nil))))
  · intro t
    exact .object rfl rfl (.cons ⟨rfl, reads_escaped _⟩ (.cons ⟨rfl, reads_escaped _⟩
      (.cons ⟨rfl, reads_names _⟩ (.cons ⟨rfl, reads_names _⟩ .nil))))
  · intro e
    exact .object rfl rfl (.cons ⟨rfl, reads_escaped _⟩ (.cons ⟨rfl, reads_escaped _⟩
      (.cons ⟨rfl, reads_escaped _⟩ (.cons ⟨rfl, reads_escaped _⟩ .nil))))
  · intro e
    exact .object rfl rfl (.cons ⟨rfl, reads_guid _⟩ (.cons ⟨rfl, reads_guid _⟩ (.cons ⟨rfl, reads_escaped _⟩
      (.cons ⟨rfl, reads_escaped _⟩ (.cons ⟨rfl, reads_escaped _⟩ (.cons ⟨rfl, reads_escaped _⟩ .nil))))))

theorem reads_statusEntry (counter : List UInt8)
    (hn : ∀ e : StatusEntry, Json.plainNames [(literal "topic", jsonEscapeString e.topic),
      (literal "type", jsonEscapeString e.type), (counter, decimal e.count.toNat)] = true)
    (hd : ∀ e : StatusEntry, Json.distinctNames [(literal "topic", jsonEscapeString e.topic),
      (literal "type", jsonEscapeString e.type), (counter, decimal e.count.toNat)] = true) (e : StatusEntry) :
    Json.Reads float (e.dump counter) (e.value counter) :=
  .object (hn e) (hd e) (.cons ⟨rfl, reads_escaped _⟩ (.cons ⟨rfl, reads_escaped _⟩
    (.cons ⟨rfl, reads_decimal e.count.isLt⟩ .nil)))

/-- The document of `status_json`. -/
theorem reads_statusJson (nodes : List StatusNode) : Json.Reads float (statusJson nodes) (statusValue nodes) := by
  refine .object rfl rfl (.cons ⟨rfl, reads_section (fun n => ?_) nodes⟩ .nil)
  exact .object rfl rfl (.cons ⟨rfl, reads_escaped _⟩
    (.cons ⟨rfl, reads_section (reads_statusEntry _ (fun _ => rfl) (fun _ => rfl)) n.publishers⟩
    (.cons ⟨rfl, reads_section (reads_statusEntry _ (fun _ => rfl) (fun _ => rfl)) n.subscriptions⟩ .nil)))

/-- The strings that a status shows. -/
structure StatusNode.Readable (n : StatusNode) : Prop where
  name : Utf8 n.fqName
  publishers : ∀ e ∈ n.publishers, Utf8 e.topic ∧ Utf8 e.type
  subscriptions : ∀ e ∈ n.subscriptions, Utf8 e.topic ∧ Utf8 e.type

theorem derives_statusEntry (counter : List UInt8)
    (hn : ∀ e : StatusEntry, Json.plainNames [(literal "topic", jsonEscapeString e.topic),
      (literal "type", jsonEscapeString e.type), (counter, decimal e.count.toNat)] = true) {e : StatusEntry}
    (h : Utf8 e.topic ∧ Utf8 e.type) : Json.Derives .value (e.dump counter) := by
  refine Json.derives_object (hn e) ?_
  simp only [List.forall_mem_cons, List.not_mem_nil, IsEmpty.forall_iff, implies_true, and_true]
  exact ⟨derives_jsonEscapeString h.1, derives_jsonEscapeString h.2, derives_decimal _⟩

/-- A status is UTF-8 exactly when its strings are. -/
theorem utf8_statusJson {nodes : List StatusNode} : Utf8 (statusJson nodes) ↔ ∀ n ∈ nodes, n.Readable := by
  constructor
  · intro h n hn
    have hnode := Json.utf8_object (Json.utf8_array (Json.utf8_object h _ List.mem_cons_self) _ (List.mem_map_of_mem hn))
    simp only [List.forall_mem_cons] at hnode
    obtain ⟨hname, hpublishers, hsubscriptions, -⟩ := hnode
    have hentry : ∀ counter (e : StatusEntry), Utf8 (e.dump counter) → Utf8 e.topic ∧ Utf8 e.type := by
      intro counter e he
      have hfields := Json.utf8_object he
      simp only [List.forall_mem_cons] at hfields
      exact ⟨utf8_of_jsonEscapeString hfields.1, utf8_of_jsonEscapeString hfields.2.1⟩
    exact ⟨utf8_of_jsonEscapeString hname,
      fun e he => hentry _ e (Json.utf8_array hpublishers _ (List.mem_map_of_mem he)),
      fun e he => hentry _ e (Json.utf8_array hsubscriptions _ (List.mem_map_of_mem he))⟩
  · intro h
    refine (Json.derives_object rfl ?_).utf8
    simp only [List.forall_mem_cons, List.not_mem_nil, IsEmpty.forall_iff, implies_true, and_true]
    refine derives_section fun n hn => Json.derives_object rfl ?_
    obtain ⟨hname, hpublishers, hsubscriptions⟩ := h n hn
    simp only [List.forall_mem_cons, List.not_mem_nil, IsEmpty.forall_iff, implies_true, and_true]
    exact ⟨derives_jsonEscapeString hname,
      derives_section fun e he => derives_statusEntry _ (fun _ => rfl) (hpublishers e he),
      derives_section fun e he => derives_statusEntry _ (fun _ => rfl) (hsubscriptions e he)⟩

end Documents

namespace Py

/-- How `tvm_ffi` makes a `str` of a `std::string`: the one that encodes to its bytes, or none. -/
def StrictUtf8 (toStr : List UInt8 → Option PyStr) : Prop := ∀ raw s, toStr raw = some s ↔ encodeUtf8 s = .ok raw

theorem decodeUtf8_strict : StrictUtf8 fun raw => (decodeUtf8 raw).toOption := by
  intro raw s
  rw [← decodeUtf8_eq_iff]
  cases h : decodeUtf8 raw <;> simp [h, Except.toOption]

theorem StrictUtf8.exists_iff {toStr : List UInt8 → Option PyStr} (h : StrictUtf8 toStr) {raw : List UInt8} :
    (∃ s, toStr raw = some s) ↔ Utf8 raw := by
  simp only [h raw]
  constructor
  · rintro ⟨s, hs⟩
    unfold encodeUtf8 at hs
    split at hs
    · rename_i cs _
      exact ⟨cs, (Except.ok.inj hs).symm⟩
    · cases hs
  · rintro ⟨cs, rfl⟩
    refine ⟨cs.map CodePoint.ofChar, ?_⟩
    rw [encodeUtf8, mapM_toChar?]

/-- `json.loads` of what the binding returned, which reaches Python as a `str`. -/
def parseDocument (toStr : List UInt8 → Option PyStr) (float : List UInt8 → Option Value) (text : List UInt8) :
    Option Value :=
  (toStr text).bind fun s => Json.loads float (utf8 s)

/-- A document arrives exactly when it is UTF-8. -/
theorem parseDocument_eq_some_iff {toStr : List UInt8 → Option PyStr} (hstr : StrictUtf8 toStr)
    {float : List UInt8 → Option Value} {text : List UInt8} {v v' : Value} (h : Json.Reads float text v) :
    parseDocument toStr float text = some v' ↔ Utf8 text ∧ v' = v := by
  have hloads : ∀ s, toStr text = some s → Json.loads float (utf8 s) = some v := by
    intro s hs
    rw [utf8_of_encode ((hstr text s).mp hs), h.loads]
  rw [← hstr.exists_iff, parseDocument, Option.bind_eq_some_iff]
  constructor
  · rintro ⟨s, hs, hv⟩
    rw [hloads s hs, Option.some.injEq] at hv
    exact ⟨⟨s, hs⟩, hv.symm⟩
  · rintro ⟨⟨s, hs⟩, rfl⟩
    exact ⟨s, hs, hloads s hs⟩

/-- What `graph.py` uses of `networkx.DiGraph`; a node may have a source, and an edge has a topic and a kind. -/
structure DiGraph (G : Type) where
  new : G
  addNode : G → List UInt8 → List UInt8 → G
  addEdge : G → List UInt8 → List UInt8 → List UInt8 × List UInt8 → G
  node? : G → List UInt8 → Option (Option (List UInt8))
  edge? : G → List UInt8 → List UInt8 → Option (List UInt8 × List UInt8)

/-- Both updates overwrite attributes, and an edge brings the nodes that are missing. -/
structure DiGraph.Lawful {G : Type} (lib : DiGraph G) : Prop where
  node?_new : ∀ n, lib.node? lib.new n = none
  edge?_new : ∀ u v, lib.edge? lib.new u v = none
  node?_addNode : ∀ g n source n',
    lib.node? (lib.addNode g n source) n' = if n' = n then some (some source) else lib.node? g n'
  edge?_addNode : ∀ g n source u v, lib.edge? (lib.addNode g n source) u v = lib.edge? g u v
  node?_addEdge : ∀ g u v label n, lib.node? (lib.addEdge g u v label) n =
    if (n = u ∨ n = v) ∧ lib.node? g n = none then some none else lib.node? g n
  edge?_addEdge : ∀ g u v label u' v', lib.edge? (lib.addEdge g u v label) u' v' =
    if u' = u ∧ v' = v then some label else lib.edge? g u' v'

/-- `d[key]` of a string -/
def stringItem (v : Value) (key : List UInt8) : Option (List UInt8) :=
  match v.find? key with
  | some (.string s) => some s
  | _ => none

/-- `d[key]` of a list -/
def listItem (v : Value) (key : List UInt8) : Option (List Value) :=
  match v.find? key with
  | some (.array xs) => some xs
  | _ => none

namespace GraphMonitor
variable {G : Type}

/-- `GraphMonitor.snapshot`; `m` is what the monitor of the process holds. -/
def snapshot (toStr : List UInt8 → Option PyStr) (float : List UInt8 → Option Value) (serviceFirst : Bool)
    (self : Guid) (m : GraphState) : Option Value :=
  match m.snapshotJson serviceFirst self with
  | .ok text => parseDocument toStr float text
  | .error _ => none

/-- One turn of the loop over the nodes. -/
def nodeTurn (lib : DiGraph G) (graph : G) (node : Value) : Option G := do
  return lib.addNode graph (← stringItem node (literal "name")) (← stringItem node (literal "source"))

/-- One turn of the loop over the edges. -/
def edgeTurn (lib : DiGraph G) (graph : G) (edge : Value) : Option G := do
  return lib.addEdge graph (← stringItem edge (literal "source")) (← stringItem edge (literal "target"))
    (← stringItem edge (literal "topic"), ← stringItem edge (literal "kind"))

def build (lib : DiGraph G) (snap : Value) : Option G := do
  let graph ← (← listItem snap (literal "nodes")).foldlM (nodeTurn lib) lib.new
  (← listItem snap (literal "edges")).foldlM (edgeTurn lib) graph

/-- `GraphMonitor.digraph` -/
def digraph (lib : DiGraph G) (toStr : List UInt8 → Option PyStr) (float : List UInt8 → Option Value)
    (serviceFirst : Bool) (self : Guid) (m : GraphState) : Option G :=
  (snapshot toStr float serviceFirst self m).bind (build lib)

/-- What the two loops make of the document of `s`. -/
def graphOf (lib : DiGraph G) (s : Snapshot) : G :=
  s.edges.foldl (fun graph e => lib.addEdge graph e.source e.target (e.name, e.kind.text))
    (s.nodes.foldl (fun graph n => lib.addNode graph n.1 n.2.text) lib.new)

theorem build_value (lib : DiGraph G) (s : Snapshot) : build lib s.value = some (graphOf lib s) := by
  have hnodes : listItem s.value (literal "nodes") = some (s.nodes.map nodeValue) := rfl
  have hedges : listItem s.value (literal "edges") = some (s.edges.map Edge.value) := rfl
  -- every entry has the keys that are asked for
  have hnode : ∀ graph n, nodeTurn lib graph (nodeValue n) = pure (lib.addNode graph n.1 n.2.text) := fun _ _ => rfl
  have hedge : ∀ graph e, edgeTurn lib graph (Edge.value e) =
      pure (lib.addEdge graph e.source e.target (e.name, e.kind.text)) := fun _ _ => rfl
  simp only [build, hnodes, hedges, Option.bind_eq_bind, Option.bind_some, List.foldlM_map, hnode, hedge,
    List.foldlM_pure]
  rfl

section Laws
variable {lib : DiGraph G} (hlib : lib.Lawful)
include hlib

theorem node?_addNodes {nodes : List (List UInt8 × NodeSource)} (hnodup : (nodes.map Prod.fst).Nodup) (n : List UInt8)
    (attr : Option (List UInt8)) :
    lib.node? (nodes.foldl (fun graph n => lib.addNode graph n.1 n.2.text) lib.new) n = some attr ↔
      ∃ s, (n, s) ∈ nodes ∧ attr = some s.text := by
  induction nodes using List.reverseRecOn with
  | nil => simp [hlib.node?_new]
  | append_singleton nodes x ih =>
    rw [List.map_append, List.map_singleton] at hnodup
    have hnew : x.1 ∉ nodes.map Prod.fst := by
      have hcons := List.perm_append_singleton x.1 (nodes.map Prod.fst) |>.nodup_iff.mp hnodup
      exact (List.nodup_cons.mp hcons).1
    rw [List.foldl_append, List.foldl_cons, List.foldl_nil, hlib.node?_addNode]
    split_ifs with hn
    · subst hn
      constructor
      · intro h
        exact ⟨x.2, List.mem_append_right _ (List.mem_singleton_self _), (Option.some.inj h).symm⟩
      · rintro ⟨s, hs, rfl⟩
        rcases List.mem_append.mp hs with hs | hs
        · exact absurd (List.mem_map_of_mem hs) hnew
        · rw [← List.mem_singleton.mp hs]
    · rw [ih hnodup.of_append_left]
      have hmem : ∀ s, (n, s) ∈ nodes ++ [x] ↔ (n, s) ∈ nodes := by
        intro s
        rw [List.mem_append, List.mem_singleton]
        exact or_iff_left (fun heq => hn (congrArg Prod.fst heq))
      simp only [hmem]

/-- The edges change no node when their ends are there. -/
theorem node?_addEdges {edges : List Edge} {g : G}
    (h : ∀ e ∈ edges, lib.node? g e.source ≠ none ∧ lib.node? g e.target ≠ none) (n : List UInt8) :
    lib.node? (edges.foldl (fun graph e => lib.addEdge graph e.source e.target (e.name, e.kind.text)) g) n =
      lib.node? g n := by
  induction edges generalizing g with
  | nil => rfl
  | cons e edges ih =>
    obtain ⟨⟨hsource, htarget⟩, hedges⟩ := List.forall_mem_cons.mp h
    have hsame : ∀ n, lib.node? (lib.addEdge g e.source e.target (e.name, e.kind.text)) n = lib.node? g n := by
      intro n
      rw [hlib.node?_addEdge, if_neg]
      rintro ⟨rfl | rfl, hnone⟩
      · exact hsource hnone
      · exact htarget hnone
    rw [List.foldl_cons, ih, hsame]
    simpa only [hsame] using hedges

theorem edge?_addNodes (nodes : List (List UInt8 × NodeSource)) (u v : List UInt8) :
    lib.edge? (nodes.foldl (fun graph n => lib.addNode graph n.1 n.2.text) lib.new) u v = none := by
  induction nodes using List.reverseRecOn with
  | nil => exact hlib.edge?_new u v
  | append_singleton nodes x ih => rw [List.foldl_append, List.foldl_cons, List.foldl_nil, hlib.edge?_addNode, ih]

/-- The last edge of a pair of nodes overwrites the others. -/
theorem edge?_addEdges (edges : List Edge) {g : G} (hg : ∀ u v, lib.edge? g u v = none) (u v : List UInt8) :
    lib.edge? (edges.foldl (fun graph e => lib.addEdge graph e.source e.target (e.name, e.kind.text)) g) u v =
      (edges.reverse.find? (fun e => e.source = u ∧ e.target = v)).map (fun e => (e.name, e.kind.text)) := by
  induction edges using List.reverseRecOn with
  | nil => exact hg u v
  | append_singleton edges e ih =>
    rw [List.foldl_append, List.foldl_cons, List.foldl_nil, hlib.edge?_addEdge, List.reverse_append,
      List.reverse_singleton, List.singleton_append, ih]
    by_cases he : e.source = u ∧ e.target = v
    · rw [List.find?_cons_of_pos (by simpa using he), if_pos ⟨he.1.symm, he.2.symm⟩]
      rfl
    · rw [List.find?_cons_of_neg (by simpa using he), if_neg (fun h => he ⟨h.1.symm, h.2.symm⟩)]

end Laws

theorem snapshot_eq_some_iff {toStr : List UInt8 → Option PyStr} (hstr : StrictUtf8 toStr)
    {float : List UInt8 → Option Value} {serviceFirst : Bool} {self : Guid} {m : GraphState} {doc : Value} :
    snapshot toStr float serviceFirst self m = some doc ↔ m.Clean self ∧ doc = (m.view serviceFirst self).value := by
  unfold snapshot Monitor.snapshotJson
  by_cases hacc : m.NamesAccepted self
  · rw [Monitor.snapshot_eq serviceFirst hacc]
    change parseDocument toStr float (m.view serviceFirst self).dump = some doc ↔ _
    rw [parseDocument_eq_some_iff hstr (reads_dump _)]
    refine and_congr_left fun _ => ⟨Monitor.clean_of_view serviceFirst hacc, fun h => ?_⟩
    exact (objectText_dump (h.view serviceFirst)).text.utf8
  · obtain ⟨e, he⟩ := Monitor.snapshot_error serviceFirst hacc
    rw [he]
    exact ⟨nofun, fun h => absurd h.1.accepted hacc⟩

end GraphMonitor

end Py

namespace Monitor

/-- Samples flow from the node `e.source` to the node `e.target`, over the topic or the service `e.name`. -/
def Flow (self : Guid) (m : GraphState) (e : Edge) : Prop :=
  ∃ t, isPlumbingTopic t = false ∧ Carries t e.kind e.name ∧
    m.Attributed self t true e.source ∧ m.Attributed self t false e.target

/-- The best of what `n` was noted with. -/
def BestNote (self : Guid) (m : GraphState) (n : List UInt8) (s : NodeSource) : Prop :=
  (n, s) ∈ m.notes self ∧ ∀ s', (n, s') ∈ m.notes self → s'.rank ≤ s.rank

variable {self : Guid} {m : GraphState}

theorem view_nodes_iff (serviceFirst : Bool) {n : List UInt8} {s : NodeSource} :
    (n, s) ∈ (m.view serviceFirst self).nodes ↔ m.BestNote self n s := by
  refine ⟨mem_view_nodes serviceFirst, fun ⟨hs, hbest⟩ => ?_⟩
  obtain ⟨⟨n', s'⟩, hmem, rfl⟩ := List.mem_map.mp ((view_nodes_names serviceFirst n).mpr ⟨s, hs⟩)
  obtain ⟨hs', hbest'⟩ := mem_view_nodes serviceFirst hmem
  have hrank : s'.rank = s.rank := Nat.le_antisymm (hbest s' hs') (hbest' s hs)
  have hsame : s' = s := by cases s' <;> cases s <;> first | rfl | cases hrank
  exact hsame ▸ hmem

theorem view_edges_iff (h : m.NamesAccepted self) (serviceFirst : Bool) {e : Edge} :
    e ∈ (m.view serviceFirst self).edges ↔ m.Flow self e := view_edges h serviceFirst e

/-- The ends of a flow are on record. -/
theorem Flow.noted (h : m.NamesAccepted self) (serviceFirst : Bool) {e : Edge} (he : m.Flow self e) :
    (∃ s, (e.source, s) ∈ (m.view serviceFirst self).nodes) ∧ ∃ s, (e.target, s) ∈ (m.view serviceFirst self).nodes := by
  obtain ⟨t, -, -, hsource, htarget⟩ := he
  have hnode : ∀ n, (∃ s, (n, s) ∈ m.notes self) → ∃ s, (n, s) ∈ (m.view serviceFirst self).nodes := by
    intro n hn
    obtain ⟨⟨n', s⟩, hmem, rfl⟩ := List.mem_map.mp ((view_nodes_names serviceFirst n).mpr hn)
    exact ⟨s, hmem⟩
  exact ⟨hnode _ (noted_of_onTopic ((attributed_iff h t true _).mp hsource)),
    hnode _ (noted_of_onTopic ((attributed_iff h t false _).mp htarget))⟩

end Monitor

theorem edgeKey_injective (serviceFirst : Bool) : Function.Injective (edgeKey serviceFirst) := by
  rintro ⟨u, v, n, k⟩ ⟨u', v', n', k'⟩ h
  simp only [edgeKey, List.cons.injEq, and_true] at h
  obtain ⟨rfl, rfl, rfl, hkind⟩ := h
  cases k <;> cases k' <;> first | rfl | (cases serviceFirst <;> cases hkind)

theorem view_edges_sorted (serviceFirst : Bool) (self : Guid) (m : GraphState) :
    (m.view serviceFirst self).edges.Pairwise (fun e e' => edgeKey serviceFirst e ≤ edgeKey serviceFirst e') :=
  SortBy.sortBy_pairwise (edgeKey serviceFirst) _

section Graph
variable {G : Type} {lib : Py.DiGraph G} (hlib : lib.Lawful) {self : Guid} {m : GraphState} (serviceFirst : Bool)
include hlib

theorem node?_graph (h : m.NamesAccepted self) (n : List UInt8) (attr : Option (List UInt8)) :
    lib.node? (Py.GraphMonitor.graphOf lib (m.view serviceFirst self)) n = some attr ↔
      ∃ s, m.BestNote self n s ∧ attr = some s.text := by
  have hnodup : ((m.view serviceFirst self).nodes.map Prod.fst).Nodup := Monitor.view_nodes_nodup serviceFirst
  have hnodes := Py.GraphMonitor.node?_addNodes hlib hnodup
  have hthere : ∀ n, (∃ s, (n, s) ∈ (m.view serviceFirst self).nodes) →
      lib.node? ((m.view serviceFirst self).nodes.foldl (fun graph n => lib.addNode graph n.1 n.2.text) lib.new) n ≠
        none := by
    rintro n ⟨s, hs⟩ hnone
    have hsome := (hnodes n (some s.text)).mpr ⟨s, hs, rfl⟩
    rw [hnone] at hsome
    cases hsome
  rw [Py.GraphMonitor.graphOf, Py.GraphMonitor.node?_addEdges hlib, hnodes]
  · simp only [Monitor.view_nodes_iff]
  · intro e he
    have hnoted := ((Monitor.view_edges_iff h serviceFirst).mp he).noted h serviceFirst
    exact ⟨hthere _ hnoted.1, hthere _ hnoted.2⟩

theorem edge?_graph (u v : List UInt8) :
    lib.edge? (Py.GraphMonitor.graphOf lib (m.view serviceFirst self)) u v =
      ((m.view serviceFirst self).edges.reverse.find? (fun e => e.source = u ∧ e.target = v)).map
        (fun e => (e.name, e.kind.text)) :=
  Py.GraphMonitor.edge?_addEdges hlib _ (Py.GraphMonitor.edge?_addNodes hlib _) u v

theorem exists_edge_graph (h : m.NamesAccepted self) (u v : List UInt8) :
    (∃ label, lib.edge? (Py.GraphMonitor.graphOf lib (m.view serviceFirst self)) u v = some label) ↔
      ∃ e, m.Flow self e ∧ e.source = u ∧ e.target = v := by
  rw [edge?_graph hlib, ← Option.isSome_iff_exists, Option.isSome_map, List.find?_isSome]
  simp only [List.mem_reverse, Monitor.view_edges_iff h, decide_eq_true_eq]

/-- Of the flows between two nodes the greatest is shown. -/
theorem edge_graph_iff (h : m.NamesAccepted self) (u v : List UInt8) (label : List UInt8 × List UInt8) :
    lib.edge? (Py.GraphMonitor.graphOf lib (m.view serviceFirst self)) u v = some label ↔
      ∃ e, m.Flow self e ∧ e.source = u ∧ e.target = v ∧ label = (e.name, e.kind.text) ∧
        ∀ e', m.Flow self e' → e'.source = u → e'.target = v →
          edgeKey serviceFirst e' ≤ edgeKey serviceFirst e := by
  have hfind (e : Edge) := SortBy.find?_reverse_eq_some_iff (a := e) (p := fun e => e.source = u ∧ e.target = v)
    (fun a _ b _ hk => edgeKey_injective serviceFirst hk) (view_edges_sorted serviceFirst self m)
  simp only [Monitor.view_edges_iff h, decide_eq_true_eq, and_imp] at hfind
  rw [edge?_graph hlib, Option.map_eq_some_iff]
  constructor
  · rintro ⟨e, he, rfl⟩
    obtain ⟨hflow, ⟨hu, hv⟩, hbest⟩ := (hfind e).mp he
    exact ⟨e, hflow, hu, hv, rfl, hbest⟩
  · rintro ⟨e, hflow, hu, hv, rfl, hbest⟩
    exact ⟨e, (hfind e).mpr ⟨hflow, ⟨hu, hv⟩, hbest⟩, rfl⟩

end Graph

/-- `snapshot()` returns exactly when the monitor holds nothing unreadable, and then what it returns is what
the six sections list, string by string. -/
theorem python_snapshot {toStr : List UInt8 → Option Py.PyStr} (hstr : Py.StrictUtf8 toStr)
    (float : List UInt8 → Option Value) (serviceFirst : Bool) (self : Guid) (m : GraphState) (doc : Value) :
    Py.GraphMonitor.snapshot toStr float serviceFirst self m = some doc ↔
      m.Clean self ∧ ∃ s, m.snapshot serviceFirst self = .ok s ∧ doc = s.value := by
  rw [Py.GraphMonitor.snapshot_eq_some_iff hstr]
  refine and_congr_right fun h => ?_
  simp only [Monitor.snapshot_ok_iff]
  constructor
  · exact fun hdoc => ⟨_, ⟨h.accepted, rfl⟩, hdoc⟩
  · rintro ⟨s, ⟨-, rfl⟩, hdoc⟩
    exact hdoc

theorem chatter_clean : (Monitor.chatter (literal "rt/chatter")).Clean (List.Vector.replicate 16 0) := by
  refine ⟨Monitor.chatter_accepted _, ?_, ?_, ?_, nofun⟩
  · intro n hn
    obtain ⟨g, msg, hfind, -⟩ := Monitor.mem_announced.mp hn
    cases hfind
  · intro g enclave hfind _
    have hall : ∀ p ∈ (Monitor.chatter (literal "rt/chatter")).participants.entries, Ascii p.2 := by decide
    exact .of_ascii (hall _ ((AssocMap.find?_eq_some_iff _ _ _).mp hfind))
  · intro g info hfind _
    have hall : ∀ e ∈ (Monitor.chatter (literal "rt/chatter")).endpoints.entries,
        Ascii e.2.topic ∧ Ascii e.2.type := by decide
    obtain ⟨htopic, htype⟩ := hall _ ((AssocMap.find?_eq_some_iff _ _ _).mp hfind)
    exact ⟨.of_ascii htopic, .of_ascii htype⟩

theorem python_snapshot_chatter : ∃ s,
    (Monitor.chatter (literal "rt/chatter")).snapshot true (List.Vector.replicate 16 0) = .ok s ∧
      Py.GraphMonitor.snapshot (fun raw => (Py.decodeUtf8 raw).toOption) (fun _ => none) true (List.Vector.replicate 16 0)
        (Monitor.chatter (literal "rt/chatter")) = some s.value := by
  have hs := Monitor.snapshot_eq true (Monitor.chatter_accepted (literal "rt/chatter"))
  exact ⟨_, hs, (python_snapshot Py.decodeUtf8_strict (fun _ => none) true _ _ _).mpr ⟨chatter_clean, _, hs, rfl⟩⟩

/-- `digraph()` returns exactly when the monitor holds nothing unreadable. Its graph has every node with its best
source, an edge for every pair of nodes between which samples flow, and on it the greatest of the topics and
services that they flow over. -/
theorem digraph_of_flows {G : Type} {lib : Py.DiGraph G} (hlib : lib.Lawful)
    {toStr : List UInt8 → Option Py.PyStr} (hstr : Py.StrictUtf8 toStr) (float : List UInt8 → Option Value)
    (serviceFirst : Bool) (self : Guid) (m : GraphState) :
    ((∃ graph, Py.GraphMonitor.digraph lib toStr float serviceFirst self m = some graph) ↔ m.Clean self) ∧
    ∀ graph, Py.GraphMonitor.digraph lib toStr float serviceFirst self m = some graph →
      (∀ n attr, lib.node? graph n = some attr ↔ ∃ s, m.BestNote self n s ∧ attr = some s.text) ∧
      (∀ u v, (∃ label, lib.edge? graph u v = some label) ↔ ∃ e, m.Flow self e ∧ e.source = u ∧ e.target = v) ∧
      ∀ u v label, lib.edge? graph u v = some label ↔ ∃ e, m.Flow self e ∧ e.source = u ∧ e.target = v ∧
        label = (e.name, e.kind.text) ∧ ∀ e', m.Flow self e' → e'.source = u → e'.target = v →
          edgeKey serviceFirst e' ≤ edgeKey serviceFirst e := by
  have hdigraph : ∀ graph, Py.GraphMonitor.digraph lib toStr float serviceFirst self m = some graph ↔
      m.Clean self ∧ graph = Py.GraphMonitor.graphOf lib (m.view serviceFirst self) := by
    intro graph
    simp only [Py.GraphMonitor.digraph, Option.bind_eq_some_iff, Py.GraphMonitor.snapshot_eq_some_iff hstr]
    constructor
    · rintro ⟨doc, ⟨h, rfl⟩, hbuild⟩
      rw [Py.GraphMonitor.build_value] at hbuild
      exact ⟨h, (Option.some.inj hbuild).symm⟩
    · rintro ⟨h, rfl⟩
      exact ⟨_, ⟨h, rfl⟩, Py.GraphMonitor.build_value lib _⟩
  constructor
  · simp only [hdigraph]
    exact ⟨fun ⟨_, h, _⟩ => h, fun h => ⟨_, h, rfl⟩⟩
  · intro graph hgraph
    obtain ⟨h, rfl⟩ := (hdigraph graph).mp hgraph
    exact ⟨node?_graph hlib serviceFirst h.accepted, exists_edge_graph hlib serviceFirst h.accepted,
      edge_graph_iff hlib serviceFirst h.accepted⟩

/-- The node of an edge, unless it is there. -/
def bringNode (nodes : AssocMap (List UInt8) (Option (List UInt8))) (n : List UInt8) :
    AssocMap (List UInt8) (Option (List UInt8)) :=
  if nodes.find? n = none then nodes.insert n none else nodes

theorem find?_bringNode (nodes : AssocMap (List UInt8) (Option (List UInt8))) (n n' : List UInt8) :
    (bringNode nodes n).find? n' = if n' = n ∧ nodes.find? n' = none then some none else nodes.find? n' := by
  unfold bringNode
  by_cases hn : n' = n
  · subst hn
    by_cases hnone : nodes.find? n' = none
    · rw [if_pos hnone, if_pos ⟨rfl, hnone⟩, AssocMap.find?_insert_self]
    · rw [if_neg hnone, if_neg (fun h => hnone h.2)]
  · have hright : (if n' = n ∧ nodes.find? n' = none then some none else nodes.find? n') = nodes.find? n' :=
      if_neg (fun h => hn h.1)
    rw [hright]
    split_ifs
    · exact AssocMap.find?_insert_ne _ _ hn
    · rfl

/-- A directed graph of two dictionaries. -/
def dictGraph : Py.DiGraph (AssocMap (List UInt8) (Option (List UInt8)) ×
    AssocMap (List UInt8 × List UInt8) (List UInt8 × List UInt8)) where
  new := (.empty, .empty)
  addNode g n source := (g.1.insert n (some source), g.2)
  addEdge g u v label := (bringNode (bringNode g.1 u) v, g.2.insert (u, v) label)
  node? g n := g.1.find? n
  edge? g u v := g.2.find? (u, v)

theorem dictGraph_lawful : dictGraph.Lawful where
  node?_new _ := rfl
  edge?_new _ _ := rfl
  node?_addNode g n source n' := by
    split_ifs with hn
    · subst hn
      exact AssocMap.find?_insert_self _ _ _
    · exact AssocMap.find?_insert_ne _ _ hn
  edge?_addNode _ _ _ _ _ := rfl
  node?_addEdge g u v label n := by
    change (bringNode (bringNode g.1 u) v).find? n = if (n = u ∨ n = v) ∧ g.1.find? n = none then some none else g.1.find? n
    rw [find?_bringNode, find?_bringNode]
    grind
  edge?_addEdge g u v label u' v' := by
    split_ifs with h
    · obtain ⟨rfl, rfl⟩ := h
      exact AssocMap.find?_insert_self _ _ _
    · exact AssocMap.find?_insert_ne _ _ (fun heq => h (Prod.mk.inj heq))

theorem digraph_of_flows_chatter : ∃ graph,
    Py.GraphMonitor.digraph dictGraph (fun raw => (Py.decodeUtf8 raw).toOption) (fun _ => none) true
      (List.Vector.replicate 16 0) (Monitor.chatter (literal "rt/chatter")) = some graph ∧
    ∃ label, dictGraph.edge? graph (literal "/talker") (literal "/listener") = some label := by
  obtain ⟨hreturns, hshows⟩ := digraph_of_flows dictGraph_lawful Py.decodeUtf8_strict (fun _ => none) true
    (List.Vector.replicate 16 0) (Monitor.chatter (literal "rt/chatter"))
  obtain ⟨graph, hgraph⟩ := hreturns.mpr chatter_clean
  obtain ⟨-, hedges, -⟩ := hshows graph hgraph
  refine ⟨graph, hgraph, (hedges _ _).mpr ⟨⟨_, _, literal "/chatter", .topic⟩, ?_, rfl, rfl⟩⟩
  exact ⟨literal "rt/chatter", by decide, ⟨literal "chatter", by decide, by decide, by decide⟩,
    Monitor.chatter_writes _, Monitor.chatter_reads _⟩

end Rcllite
