import Mathlib.Data.Nat.Digits.Lemmas
import Rcllite.SnapshotSpec

/-! Whether a snapshot is a JSON text. Every string of the monitor's maps that it shows stands in it
escaped, and the escaper copies what is not ASCII; so the document is well formed exactly when those
strings are UTF-8. -/
namespace Rcllite
open Utf8 (literal)

section Numbers

theorem number_decimal (n : ℕ) : Json.IntPart (decimal n) := by
  unfold decimal
  split_ifs with h
  · exact .zero
  · have hdigit : ∀ d < 10, Json.Digit (0x30 + UInt8.ofNat d) ∧ (0x30 + UInt8.ofNat d = 0x30 → d = 0) := by decide
    have hall : ∀ d ∈ (Nat.digits 10 n).reverse, d < 10 :=
      fun d hd => Nat.digits_lt_base (by decide) (List.mem_reverse.mp hd)
    have hne : (Nat.digits 10 n).reverse ≠ [] := by simpa using Nat.digits_ne_nil_iff_ne_zero.mpr h
    -- no leading zero
    have hlast : (Nat.digits 10 n).reverse.head hne ≠ 0 := by
      rw [List.head_reverse]
      exact Nat.getLast_digit_ne_zero 10 h
    generalize (Nat.digits 10 n).reverse = ds at hall hne hlast
    cases ds with
    | nil => exact absurd rfl hne
    | cons d ds =>
      obtain ⟨hd, hds⟩ := List.forall_mem_cons.mp hall
      refine .digits _ _ (hdigit d hd).1 (fun h0 => hlast ((hdigit d hd).2 h0)) ?_
      intro x hx
      obtain ⟨e, he, rfl⟩ := List.mem_map.mp hx
      exact (hdigit e (hds e he)).1

theorem derives_decimal (n : ℕ) : Json.Derives .value (decimal n) := by
  have hnumber := Json.Number.mk [] _ [] [] (Or.inl rfl) (number_decimal n) .none .none
  rw [List.nil_append, List.append_nil, List.append_nil] at hnumber
  exact .number hnumber

theorem derives_signedDecimal (z : ℤ) : Json.Derives .value (signedDecimal z) := by
  unfold signedDecimal
  split_ifs
  · have hnumber := Json.Number.mk [0x2d] _ [] [] (Or.inr rfl) (number_decimal z.natAbs) .none .none
    rw [List.append_nil, List.append_nil] at hnumber
    exact .number hnumber
  · exact derives_decimal _

end Numbers

section Values

theorem guidHex_plain (g : Guid) : ∀ x ∈ guidHex g, Json.Plain x := by
  intro x hx
  obtain ⟨byte, -, hx⟩ := List.mem_flatMap.mp hx
  simp only [List.mem_cons, List.not_mem_nil, or_false] at hx
  rcases hx with rfl | rfl
  · exact (hexDigit_nibbles byte).1.plain
  · exact (hexDigit_nibbles byte).2.plain

theorem derives_guidHex (g : Guid) : Json.Derives .value (0x22 :: guidHex g ++ [0x22]) :=
  .string (Json.chars_of_plain (guidHex_plain g))

theorem derives_dumpNames {names : List (List UInt8)} (h : ∀ n ∈ names, Utf8 n) :
    Json.Derives .value (dumpNames names) := by
  apply Json.derives_array
  simpa using fun n hn => derives_jsonEscapeString (h n hn)

/-- A value for every entry of a section. -/
theorem derives_section {α : Type} {dump : α → List UInt8} {l : List α}
    (h : ∀ a ∈ l, Json.Derives .value (dump a)) : Json.Derives .value (Json.array (l.map dump)) := by
  apply Json.derives_array
  simpa using h

theorem derives_literal {b : List UInt8} (h : Ascii b) : Json.Derives .value (jsonEscapeString b) :=
  derives_jsonEscapeString (Utf8.of_ascii h)

/-- The strings of a log record. -/
def LogRecord.Readable (l : LogRecord) : Prop := Utf8 l.name ∧ Utf8 l.msg ∧ Utf8 l.file ∧ Utf8 l.function

/-- Every string that comes from outside is UTF-8. -/
structure Snapshot.Readable (s : Snapshot) : Prop where
  nodes : ∀ n ∈ s.nodes, Utf8 n.1
  topics : ∀ t ∈ s.topics, Utf8 t.topic ∧ Utf8 t.type ∧ (∀ n ∈ t.publishers, Utf8 n) ∧ ∀ n ∈ t.subscriptions, Utf8 n
  services : ∀ t ∈ s.services, Utf8 t.service ∧ Utf8 t.type ∧ (∀ n ∈ t.servers, Utf8 n) ∧ ∀ n ∈ t.clients, Utf8 n
  edges : ∀ e ∈ s.edges, Utf8 e.source ∧ Utf8 e.target ∧ Utf8 e.name
  endpoints : ∀ e ∈ s.endpoints, Utf8 e.node ∧ Utf8 e.info.topic ∧ Utf8 e.info.type
  logs : ∀ l ∈ s.logs, l.Readable

/-- The keys of the document, in its order. -/
def snapshotKeys : List (List UInt8) :=
  [literal "nodes", literal "topics", literal "services", literal "edges", literal "endpoints", literal "logs"]

theorem derives_node {n : List UInt8 × NodeSource} (h : Utf8 n.1) : Json.Derives .value (dumpNode n) := by
  refine Json.derives_object rfl ?_
  simp only [List.forall_mem_cons, List.not_mem_nil, IsEmpty.forall_iff, implies_true, and_true]
  refine ⟨derives_jsonEscapeString h, derives_literal ?_⟩
  cases n.2 <;> decide

theorem derives_topic {t : TopicEntry} (htopic : Utf8 t.topic) (htype : Utf8 t.type)
    (hpub : ∀ n ∈ t.publishers, Utf8 n) (hsub : ∀ n ∈ t.subscriptions, Utf8 n) : Json.Derives .value t.dump := by
  refine Json.derives_object rfl ?_
  simp only [List.forall_mem_cons, List.not_mem_nil, IsEmpty.forall_iff, implies_true, and_true]
  exact ⟨derives_jsonEscapeString htopic, derives_jsonEscapeString htype, derives_dumpNames hpub,
    derives_dumpNames hsub⟩

theorem derives_service {t : ServiceEntry} (hservice : Utf8 t.service) (htype : Utf8 t.type)
    (hserver : ∀ n ∈ t.servers, Utf8 n) (hclient : ∀ n ∈ t.clients, Utf8 n) : Json.Derives .value t.dump := by
  refine Json.derives_object rfl ?_
  simp only [List.forall_mem_cons, List.not_mem_nil, IsEmpty.forall_iff, implies_true, and_true]
  exact ⟨derives_jsonEscapeString hservice, derives_jsonEscapeString htype, derives_dumpNames hserver,
    derives_dumpNames hclient⟩

theorem derives_edge {e : Edge} (hsource : Utf8 e.source) (htarget : Utf8 e.target) (hname : Utf8 e.name) :
    Json.Derives .value e.dump := by
  refine Json.derives_object rfl ?_
  simp only [List.forall_mem_cons, List.not_mem_nil, IsEmpty.forall_iff, implies_true, and_true]
  refine ⟨derives_jsonEscapeString hsource, derives_jsonEscapeString htarget, derives_jsonEscapeString hname,
    derives_literal ?_⟩
  cases e.kind <;> decide

theorem derives_endpoint {e : LiveEndpoint} (hnode : Utf8 e.node) (htopic : Utf8 e.info.topic)
    (htype : Utf8 e.info.type) : Json.Derives .value e.dump := by
  refine Json.derives_object rfl ?_
  simp only [List.forall_mem_cons, List.not_mem_nil, IsEmpty.forall_iff, implies_true, and_true]
  refine ⟨derives_guidHex _, derives_guidHex _, derives_jsonEscapeString hnode, derives_jsonEscapeString htopic,
    derives_jsonEscapeString htype, derives_literal ?_⟩
  cases e.info.writer <;> decide

theorem derives_log {l : LogRecord} (h : l.Readable) : Json.Derives .value l.dump := by
  obtain ⟨hname, hmsg, hfile, hfunction⟩ := h
  refine Json.derives_object rfl ?_
  simp only [List.forall_mem_cons, List.not_mem_nil, IsEmpty.forall_iff, implies_true, and_true]
  exact ⟨derives_signedDecimal _, derives_decimal _, derives_jsonEscapeString hname, derives_jsonEscapeString hmsg,
    derives_jsonEscapeString hfile, derives_jsonEscapeString hfunction, derives_decimal _⟩

theorem objectText_dump {s : Snapshot} (h : s.Readable) : Json.ObjectText snapshotKeys s.dump := by
  refine Json.objectText_object rfl rfl ?_
  simp only [List.forall_mem_cons, List.not_mem_nil, IsEmpty.forall_iff, implies_true, and_true]
  refine ⟨derives_section ?_, derives_section ?_, derives_section ?_, derives_section ?_, derives_section ?_,
    derives_section ?_⟩
  · exact fun n hn => derives_node (h.nodes n hn)
  · intro t ht
    obtain ⟨htopic, htype, hpub, hsub⟩ := h.topics t ht
    exact derives_topic htopic htype hpub hsub
  · intro t ht
    obtain ⟨hservice, htype, hserver, hclient⟩ := h.services t ht
    exact derives_service hservice htype hserver hclient
  · intro e he
    obtain ⟨hsource, htarget, hname⟩ := h.edges e he
    exact derives_edge hsource htarget hname
  · intro e he
    obtain ⟨hnode, htopic, htype⟩ := h.endpoints e he
    exact derives_endpoint hnode htopic htype
  · exact fun l hl => derives_log (h.logs l hl)

/-- A string of a UTF-8 document is UTF-8: the names of the nodes, what the endpoints and the logs say. -/
theorem readable_of_dump {s : Snapshot} (h : Utf8 s.dump) :
    (∀ n ∈ s.nodes, Utf8 n.1) ∧ (∀ e ∈ s.endpoints, Utf8 e.info.topic ∧ Utf8 e.info.type) ∧
      ∀ l ∈ s.logs, l.Readable := by
  have hdoc := Json.utf8_object h
  simp only [List.forall_mem_cons] at hdoc
  obtain ⟨hnodes, -, -, -, hendpoints, hlogs, -⟩ := hdoc
  refine ⟨fun n hn => ?_, fun e he => ?_, fun l hl => ?_⟩
  · have hnode := Json.utf8_object (Json.utf8_array hnodes _ (List.mem_map_of_mem hn))
    exact utf8_of_jsonEscapeString (hnode _ List.mem_cons_self)
  · have hendpoint := Json.utf8_object (Json.utf8_array hendpoints _ (List.mem_map_of_mem he))
    simp only [List.forall_mem_cons] at hendpoint
    obtain ⟨-, -, -, htopic, htype, -⟩ := hendpoint
    exact ⟨utf8_of_jsonEscapeString htopic, utf8_of_jsonEscapeString htype⟩
  · have hlog := Json.utf8_object (Json.utf8_array hlogs _ (List.mem_map_of_mem hl))
    simp only [List.forall_mem_cons] at hlog
    obtain ⟨-, -, hname, hmsg, hfile, hfunction, -⟩ := hlog
    exact ⟨utf8_of_jsonEscapeString hname, utf8_of_jsonEscapeString hmsg, utf8_of_jsonEscapeString hfile,
      utf8_of_jsonEscapeString hfunction⟩

end Values

namespace Monitor

/-- The names that others announce are accepted, and what others say of themselves and of their endpoints,
and what the log keeps, is UTF-8. -/
structure Clean (own : Guid) (m : GraphState) : Prop where
  accepted : m.NamesAccepted own
  announced : ∀ n ∈ m.announced own, Utf8 n.nodeNamespace ∧ Utf8 n.nodeName
  enclaves : ∀ g enclave, m.participants.find? g = some enclave → g ≠ own → Utf8 enclave
  endpoints : ∀ g info, m.endpoints.find? g = some info → info.participant ≠ own → Utf8 info.topic ∧ Utf8 info.type
  logs : ∀ l ∈ m.logs, (LogRecord.ofVal l).Readable

/-- The call returns, and what it returns is a JSON text with the six keys. -/
def HasSnapshot (serviceFirst : Bool) (self : Guid) (m : GraphState) : Prop :=
  ∃ b, m.snapshotJson serviceFirst self = .ok b ∧ Json.ObjectText snapshotKeys b

variable {self : Guid} {m : GraphState}

theorem Clean.owner (h : m.Clean self) {participant : Guid} (hp : participant ≠ self) (endpoint : Guid) :
    Utf8 (m.owner participant endpoint).1 := by
  unfold Monitor.owner
  cases hn : (m.discovery.find? participant).bind
      (fun msg => (nodeInfos msg).find? (fun n => n.owns endpoint)) with
  | some n =>
    obtain ⟨msg, hmsg, hfind⟩ := Option.bind_eq_some_iff.mp hn
    exact utf8_fqNodeName.mpr
      (h.announced n (mem_announced.mpr ⟨participant, msg, hmsg, hp, List.mem_of_find?_eq_some hfind⟩))
  | none =>
    have hanonymous : Utf8 (literal "participant:" ++ guidHex participant) :=
      (Utf8.ascii_append_iff (by decide)).mpr
        (Json.utf8_between (by decide) (by decide) (derives_guidHex participant).utf8)
    cases hpart : m.participants.find? participant with
    | none => exact hanonymous
    | some enclave =>
      cases enclave with
      | nil => exact hanonymous
      | cons c enclave => exact h.enclaves participant _ hpart hp

theorem Clean.attributed (h : m.Clean self) {e : LiveEndpoint} (he : e ∈ m.attributed self) :
    Utf8 e.node ∧ Utf8 e.info.topic ∧ Utf8 e.info.type := by
  obtain ⟨g, info, hfind, hp, rfl⟩ := mem_attributed.mp he
  exact ⟨h.owner hp g, h.endpoints g info hfind hp⟩

theorem Clean.notes (h : m.Clean self) {name : List UInt8} {s : NodeSource} (hn : (name, s) ∈ m.notes self) :
    Utf8 name := by
  unfold Monitor.notes at hn
  rcases List.mem_append.mp hn with hn | hn
  · rcases List.mem_append.mp hn with hn | hn
    · obtain ⟨e, he, heq⟩ := List.mem_map.mp hn
      rw [← (Prod.mk.inj heq).1]
      exact (h.attributed he).1
    · obtain ⟨n, hmem, heq⟩ := List.mem_map.mp hn
      rw [← (Prod.mk.inj heq).1]
      exact utf8_fqNodeName.mpr (h.announced n hmem)
  · obtain ⟨enclave, hmem, heq⟩ := List.mem_map.mp hn
    obtain ⟨g, hfind, hg, -⟩ := mem_enclaves.mp hmem
    rw [← (Prod.mk.inj heq).1]
    exact h.enclaves g enclave hfind hg

/-- The aggregation shows nothing new. -/
theorem Clean.aggregated (h : m.Clean self) {t : List UInt8} {agg : TopicAgg}
    (hagg : (m.aggregated self).find? t = some agg) :
    Utf8 t ∧ Utf8 agg.type ∧ (∀ n ∈ agg.writers, Utf8 n) ∧ ∀ n ∈ agg.readers, Utf8 n := by
  obtain ⟨⟨e, he, ht, htype⟩, hw, hr⟩ := (addEndpoint_spec (m.attributed self)).2 t agg hagg
  have hon : ∀ w n, OnTopic (m.attributed self) t w n → Utf8 n := by
    rintro w n ⟨e, he, -, -, rfl⟩
    exact (h.attributed he).1
  obtain ⟨-, htopic, hty⟩ := h.attributed he
  exact ⟨ht ▸ htopic, htype ▸ hty, fun n hn => hon _ n ((hw n).mp hn), fun n hn => hon _ n ((hr n).mp hn)⟩

theorem Clean.view (h : m.Clean self) (serviceFirst : Bool) : (m.view serviceFirst self).Readable := by
  have hslash : ∀ x, Utf8 x → Utf8 (literal "/" ++ x) := fun x hx => (Utf8.ascii_append_iff (by decide)).mpr hx
  have htopic : ∀ x, Utf8 (literal "rt/" ++ x) → Utf8 x := fun x hx => (Utf8.ascii_append_iff (by decide)).mp hx
  have hrequest : ∀ x, Utf8 (literal "rq/" ++ x ++ literal "Request") → Utf8 x := by
    intro x hx
    rw [List.append_assoc, Utf8.ascii_append_iff (by decide)] at hx
    have hcut := Utf8.cut_ascii (b := []) (m := literal "Request") (by decide) (by decide)
      (by rwa [List.append_nil])
    exact hcut.1
  refine ⟨?_, ?_, ?_, ?_, ?_, ?_⟩
  · intro n hn
    exact h.notes (mem_view_nodes serviceFirst (s := n.2) hn).1
  · intro e he
    obtain ⟨t, agg, hagg, hentry⟩ := (mem_view_topics serviceFirst).mp he
    obtain ⟨-, x, -, rfl, rfl⟩ := topicEntry_eq_some.mp hentry
    obtain ⟨ht, htype, hw, hr⟩ := h.aggregated hagg
    exact ⟨hslash x (htopic x ht), htype, fun n hn => hw n (mem_inOrder.mp hn), fun n hn => hr n (mem_inOrder.mp hn)⟩
  · intro e he
    obtain ⟨t, agg, hagg, hentry⟩ := (mem_view_services serviceFirst).mp he
    obtain ⟨x, -, rfl, rfl⟩ := serviceEntry_eq_some.mp hentry
    obtain ⟨ht, htype, hw, hr⟩ := h.aggregated hagg
    exact ⟨hslash x (hrequest x ht), htype, fun n hn => hr n (mem_inOrder.mp hn), fun n hn => hw n (mem_inOrder.mp hn)⟩
  · intro e he
    obtain ⟨t, agg, hagg, hedge⟩ := (mem_view_edges serviceFirst).mp he
    obtain ⟨-, hcarries, hsource, htarget⟩ := mem_topicEdges.mp hedge
    obtain ⟨ht, -, hw, hr⟩ := h.aggregated hagg
    refine ⟨hw _ hsource, hr _ htarget, ?_⟩
    cases hk : e.kind with
    | topic =>
      rw [hk] at hcarries
      obtain ⟨x, -, rfl, hname⟩ := hcarries
      exact hname ▸ hslash x (htopic x ht)
    | service =>
      rw [hk] at hcarries
      obtain ⟨x, -, rfl, hname⟩ := hcarries
      exact hname ▸ hslash x (hrequest x ht)
  · exact fun e he => h.attributed he
  · intro l hl
    obtain ⟨v, hv, rfl⟩ := List.mem_map.mp hl
    exact h.logs v hv

/-- What a UTF-8 document shows of the maps is all of it. -/
theorem clean_of_view (serviceFirst : Bool) (hacc : m.NamesAccepted self)
    (h : Utf8 (m.view serviceFirst self).dump) : m.Clean self := by
  obtain ⟨hnodes, hendpoints, hlogs⟩ := readable_of_dump h
  have hnote : ∀ name s, (name, s) ∈ m.notes self → Utf8 name := by
    intro name s hn
    obtain ⟨n, hmem, rfl⟩ := List.mem_map.mp ((view_nodes_names serviceFirst name).mpr ⟨s, hn⟩)
    exact hnodes n hmem
  refine ⟨hacc, ?_, ?_, ?_, ?_⟩
  · intro n hn
    apply utf8_fqNodeName.mp
    apply hnote _ .discovery
    exact List.mem_append_left _ (List.mem_append_right _ (List.mem_map.mpr ⟨n, hn, rfl⟩))
  · -- an empty enclave is not noted, and is UTF-8
    intro g enclave hfind hg
    by_cases hnil : enclave = []
    · exact hnil ▸ Utf8.nil
    · apply hnote _ .userData
      exact List.mem_append_right _ (List.mem_map.mpr ⟨enclave, mem_enclaves.mpr ⟨g, hfind, hg, hnil⟩, rfl⟩)
  · intro g info hfind hp
    exact hendpoints _ (mem_attributed.mpr ⟨g, info, hfind, hp, rfl⟩)
  · exact fun l hl => hlogs _ (List.mem_map_of_mem hl)

theorem hasSnapshot_iff (serviceFirst : Bool) (self : Guid) (m : GraphState) :
    m.HasSnapshot serviceFirst self ↔ m.Clean self := by
  unfold HasSnapshot snapshotJson
  constructor
  · rintro ⟨b, hb, htext⟩
    by_cases hacc : m.NamesAccepted self
    · rw [snapshot_eq serviceFirst hacc] at hb
      cases hb
      exact clean_of_view serviceFirst hacc htext.text.utf8
    · obtain ⟨e, he⟩ := snapshot_error serviceFirst hacc
      rw [he] at hb
      cases hb
  · intro h
    rw [snapshot_eq serviceFirst h.accepted]
    exact ⟨_, rfl, objectText_dump (h.view serviceFirst)⟩

end Monitor

/-- An announcement whose names are accepted and readable. -/
def CleanInfo (msg : participantEntitiesInfoSchema.Val) : Prop :=
  ∀ n ∈ nodeInfos msg, AcceptedName n.nodeNamespace n.nodeName ∧ Utf8 n.nodeNamespace ∧ Utf8 n.nodeName

/-- A sample that puts nothing unreadable into the maps: the monitor's own participant may say anything, and
so may a departure and a payload that does not decode. -/
def MonitorSample.Clean (self : Guid) : MonitorSample → Prop
  | .participant s => s.alive = true → s.key ≠ self → Utf8 (parseEnclave (s.userData.getD []))
  | .endpoint _ s => s.alive = true → s.participantKey ≠ self →
      Utf8 (s.topicName.getD []) ∧ Utf8 (s.typeName.getD [])
  | .discovery payload => ∀ msg r, participantEntitiesInfoSchema.decode true payload = .ok (msg, r) →
      gidKey msg ≠ self → CleanInfo msg
  | .rosout payload => ∀ msg r, logSchema.decode true payload = .ok (msg, r) → (LogRecord.ofVal msg).Readable

namespace Monitor
variable {self : Guid} {m m' : GraphState}

theorem clean_iff : m.Clean self ↔
    (∀ g msg, m.discovery.find? g = some msg → g ≠ self → CleanInfo msg) ∧
    (∀ g enclave, m.participants.find? g = some enclave → g ≠ self → Utf8 enclave) ∧
    (∀ g info, m.endpoints.find? g = some info → info.participant ≠ self → Utf8 info.topic ∧ Utf8 info.type) ∧
    ∀ l ∈ m.logs, (LogRecord.ofVal l).Readable := by
  constructor
  · intro h
    refine ⟨fun g msg hfind hg n hn => ?_, h.enclaves, h.endpoints, h.logs⟩
    have hmem : n ∈ m.announced self := mem_announced.mpr ⟨g, msg, hfind, hg, hn⟩
    exact ⟨h.accepted n hmem, h.announced n hmem⟩
  · rintro ⟨hd, hp, he, hl⟩
    have hinfo : ∀ n ∈ m.announced self, AcceptedName n.nodeNamespace n.nodeName ∧
        Utf8 n.nodeNamespace ∧ Utf8 n.nodeName := by
      intro n hn
      obtain ⟨g, msg, hfind, hg, hmem⟩ := mem_announced.mp hn
      exact hd g msg hfind hg n hmem
    exact ⟨fun n hn => (hinfo n hn).1, fun n hn => (hinfo n hn).2, hp, he, hl⟩

theorem clean_process {x : MonitorSample} (h : m.Clean self) (hx : x.Clean self)
    (hp : m.process gidKey x = .ok m') : m'.Clean self := by
  rw [clean_iff] at h ⊢
  obtain ⟨hd, hpart, hend, hlog⟩ := h
  cases x with
  | participant s =>
    cases hp
    unfold onParticipant
    split_ifs with halive
    · refine ⟨hd, fun g enclave hfind => ?_, hend, hlog⟩
      exact AssocMap.find?_insert_forall (P := fun g enclave => g ≠ self → Utf8 enclave) (hx halive) hpart hfind
    · -- what is left after a departure was there before
      refine ⟨fun g msg hfind => hd g msg ?_, fun g enclave hfind => hpart g enclave ?_,
        fun g info hfind => hend g info ?_, hlog⟩
      · exact ((AssocMap.find?_eraseIf _ _ _ _).mp hfind).1
      · exact ((AssocMap.find?_eraseIf _ _ _ _).mp hfind).1
      · exact ((AssocMap.find?_eraseIf _ _ _ _).mp hfind).1
  | endpoint writer s =>
    cases hp
    unfold onEndpoint
    split_ifs with halive
    · refine ⟨hd, hpart, fun g info hfind => ?_, hlog⟩
      refine AssocMap.find?_insert_forall (P := fun _ info => EndpointInfo.participant info ≠ self →
        Utf8 info.topic ∧ Utf8 info.type) ?_ hend hfind
      exact hx halive
    · exact ⟨hd, hpart, fun g info hfind => hend g info ((AssocMap.find?_eraseIf _ _ _ _).mp hfind).1, hlog⟩
  | discovery payload =>
    simp only [process, onDiscovery] at hp
    cases hdec : participantEntitiesInfoSchema.decode true payload with
    | ok r =>
      rw [hdec] at hp
      cases hp
      refine ⟨fun g msg hfind => ?_, hpart, hend, hlog⟩
      exact AssocMap.find?_insert_forall (P := fun g msg => g ≠ self → CleanInfo msg) (hx r.1 r.2 hdec) hd hfind
    | error e =>
      rw [hdec] at hp
      cases e <;> cases hp
      exact ⟨hd, hpart, hend, hlog⟩
  | rosout payload =>
    simp only [process, onRosout] at hp
    cases hdec : logSchema.decode true payload with
    | ok r =>
      rw [hdec] at hp
      obtain rfl : m.recordLog r.1 = m' := Except.ok.inj hp
      unfold recordLog
      dsimp only
      refine ⟨hd, hpart, hend, fun l hl => ?_⟩
      -- the oldest records are dropped
      have hkept : l ∈ m.logs ++ [r.1] := List.mem_of_mem_drop hl
      rcases List.mem_append.mp hkept with hl | hl
      · exact hlog l hl
      · rw [List.mem_singleton.mp hl]
        exact hx r.1 r.2 hdec
    | error e =>
      rw [hdec] at hp
      cases e <;> cases hp
      exact ⟨hd, hpart, hend, hlog⟩

theorem clean_processAll (xs : List MonitorSample) (h : m.Clean self) (hx : ∀ x ∈ xs, x.Clean self) :
    (processAll gidKey xs m).1.Clean self := by
  induction xs generalizing m with
  | nil => exact h
  | cons x xs ih =>
    obtain ⟨hx, hxs⟩ := List.forall_mem_cons.mp hx
    rw [processAll]
    cases hp : m.process gidKey x with
    -- the thread ends, and the maps stay as they are
    | error e => exact h
    | ok m' => exact ih (clean_process h hx hp) hxs

theorem clean_new : (new : GraphState).Clean self :=
  clean_iff.mpr ⟨nofun, nofun, nofun, nofun⟩

end Monitor

/-- A monitor has a snapshot exactly when its maps are clean, and in a run all of whose samples are clean
it has one after every poll. -/
theorem snapshot_wellformed_iff (serviceFirst : Bool) (self : Guid) (polls : List Poll) :
    let m := ((Monitor.new : GraphState).run gidKey polls).1
    (m.HasSnapshot serviceFirst self ↔ m.Clean self) ∧
      ((∀ x ∈ polls.flatMap Poll.samples, x.Clean self) → m.HasSnapshot serviceFirst self) := by
  intro m
  refine ⟨Monitor.hasSnapshot_iff serviceFirst self m, fun h => ?_⟩
  rw [Monitor.hasSnapshot_iff]
  have hm : m = (Monitor.processAll gidKey (polls.flatMap Poll.samples) Monitor.new).1 := by
    rw [← Monitor.run_eq]
  rw [hm]
  exact Monitor.clean_processAll _ Monitor.clean_new h

/-- An announcement of one node, in the root namespace, without a name. -/
def namelessInfo : participantEntitiesInfoSchema.Val :=
  (gidSchema.zero, (([(literal "/", [], [], [], ())] : List nodeEntitiesInfoSchema.Val), ()))

/-- A log record whose message is the byte `0xff`. -/
def illegibleLog : logSchema.Val :=
  ((0#32, 0#32, ()), 0#8, [], [0xff], [], [], 0#32, ())

theorem not_utf8_ff : ¬ Utf8 [0xff] := by
  rintro ⟨cs, hcs⟩
  cases cs with
  | nil => cases hcs
  | cons c cs =>
    rw [List.flatMap_cons] at hcs
    -- a character of more than one byte is too long
    have hlen := congrArg List.length hcs
    rw [List.length_append, List.length_singleton] at hlen
    have hone : String.utf8EncodeChar c = [0xff] := by
      have hpos : (String.utf8EncodeChar c).length ≠ 0 := by
        rw [String.length_utf8EncodeChar]
        have := c.utf8Size_pos
        omega
      have hnil : cs.flatMap String.utf8EncodeChar = [] := List.length_eq_zero_iff.mp (by omega)
      rw [hnil, List.append_nil] at hcs
      exact hcs.symm
    have hsize : c.utf8Size = 1 := by
      rw [← String.length_utf8EncodeChar, hone]
      rfl
    rcases Utf8.encode_cases c with ⟨x, -, hx, henc⟩ | ⟨hbig, -⟩
    · rw [henc, List.cons.injEq] at hone
      rw [hone.1] at hx
      exact absurd hx (by decide)
    · have hsmall : c.val.toNat ≤ 0x7f := UInt32.le_iff_toNat_le.mp (Char.utf8Size_eq_one_iff.mp hsize)
      omega

theorem namelessInfo_fits : participantEntitiesInfoSchema.Fits StringFits namelessInfo := by
  have hseq : ∀ (T : Type) (ok : T → Prop), Shape.Fits ok .seq ([] : List T) := fun T ok => ⟨by simp, nofun⟩
  have hnil : StringFits [] := (by decide : 1 < 2^32)
  have hslash : StringFits (literal "/") := (by decide : 2 < 2^32)
  refine ⟨⟨fun _ _ => trivial, trivial⟩, ⟨by decide, ?_⟩, trivial⟩
  intro n hn
  rw [List.mem_singleton.mp hn]
  exact ⟨hslash, hnil, hseq _ _, hseq _ _, trivial⟩

theorem log_nonempty : logSchema.SeqElementsNonempty := by
  simp [logSchema, timeSchema, Members.SeqElementsNonempty, RosType.SeqElementsNonempty]

theorem illegibleLog_fits : logSchema.Fits StringFits illegibleLog := by
  have hnil : StringFits [] := (by decide : 1 < 2^32)
  have hone : StringFits [0xff] := (by decide : 2 < 2^32)
  exact ⟨⟨trivial, trivial, trivial⟩, trivial, hnil, hone, hnil, hnil, trivial, trivial⟩

/-- A node without a name makes `snapshot_json` raise, and a log message that is not UTF-8 makes it return
something that is not a JSON text. -/
theorem remote_strings_break_snapshot :
    let m := ((Monitor.new : GraphState).run gidKey
      [.discovery [⟨participantEntitiesInfoSchema.encode namelessInfo, true⟩]]).1
    let m' := ((Monitor.new : GraphState).run gidKey [.rosout [⟨logSchema.encode illegibleLog, true⟩]]).1
    let self : Guid := List.Vector.replicate 16 1
    (∃ e, m.snapshotJson true self = .error e) ∧
      ∃ b, m'.snapshotJson true self = .ok b ∧ ¬ Json.Text b := by
  have hdec := Members.decode_encode _ participantEntitiesInfo_nonempty namelessInfo namelessInfo_fits []
    (by decide +kernel)
  have hdec' := Members.decode_encode _ log_nonempty illegibleLog illegibleLog_fits [] (by decide +kernel)
  rw [List.append_nil] at hdec hdec'
  intro m m' self
  have hm : m = (Monitor.new : GraphState).recordDiscovery gidKey namelessInfo := by
    have hrun := Monitor.run_eq gidKey [.discovery [⟨participantEntitiesInfoSchema.encode namelessInfo, true⟩]]
      (Monitor.new : GraphState)
    simp only [List.flatMap_cons, List.flatMap_nil, Poll.samples, validPayloads, List.filter_cons_of_pos,
      List.filter_nil, List.map_cons, List.map_nil, List.append_nil, Monitor.processAll, Monitor.process,
      Monitor.onDiscovery, hdec] at hrun
    exact congrArg Prod.fst hrun
  have hm' : m' = (Monitor.new : GraphState).recordLog illegibleLog := by
    have hrun := Monitor.run_eq gidKey [.rosout [⟨logSchema.encode illegibleLog, true⟩]] (Monitor.new : GraphState)
    simp only [List.flatMap_cons, List.flatMap_nil, Poll.samples, validPayloads, List.filter_cons_of_pos,
      List.filter_nil, List.map_cons, List.map_nil, List.append_nil, Monitor.processAll, Monitor.process,
      Monitor.onRosout, hdec'] at hrun
    exact congrArg Prod.fst hrun
  rw [hm, hm']
  unfold Monitor.snapshotJson
  constructor
  · have hbad : ¬ ((Monitor.new : GraphState).recordDiscovery gidKey namelessInfo).NamesAccepted self := by
      intro h
      have hself : gidKey namelessInfo ≠ self := by decide
      have hnode := h ⟨literal "/", [], [], []⟩ (Monitor.mem_announced.mpr
        ⟨gidKey namelessInfo, namelessInfo, AssocMap.find?_insert_self _ _ _, hself, List.mem_singleton_self _⟩)
      exact hnode.name_ne rfl
    obtain ⟨e, he⟩ := Monitor.snapshot_error true hbad
    exact ⟨e, by rw [he]; rfl⟩
  · have hgood : ((Monitor.new : GraphState).recordLog illegibleLog).NamesAccepted self := by
      intro n hn
      obtain ⟨g, msg, hfind, -⟩ := Monitor.mem_announced.mp hn
      cases hfind
    rw [Monitor.snapshot_eq true hgood]
    refine ⟨_, rfl, fun htext => ?_⟩
    obtain ⟨-, -, hlogs⟩ := readable_of_dump htext.utf8
    exact not_utf8_ff (hlogs (LogRecord.ofVal illegibleLog) (List.mem_map_of_mem (List.mem_singleton_self _))).2.1

end Rcllite
