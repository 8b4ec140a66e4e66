import Rcllite.SnapshotSpec

/-! That a snapshot shows the graph: its edges are those of the live endpoints, its sections agree with each
other, and what the monitor's own participant owns does not show. -/
namespace Rcllite
open Utf8 (literal)

section Orders
variable {κ α : Type} [DecidableEq κ]

/-- What is iterated of an ordered map depends on its entries only. -/
theorem sortBy_entries_filter_congr {key : κ → List UInt8} (hkey : Function.Injective key) {m m' : AssocMap κ α}
    {P : κ × α → Bool} (h : ∀ k a, P (k, a) = true → (m.find? k = some a ↔ m'.find? k = some a)) :
    (SortBy.sortBy (fun e => key e.1) m.entries).filter P = (SortBy.sortBy (fun e => key e.1) m'.entries).filter P := by
  have hnodup : ∀ m : AssocMap κ α, m.entries.Nodup := fun m => List.Nodup.of_map _ m.nodup
  have hinj : ∀ m : AssocMap κ α, ∀ e ∈ m.entries.filter P, ∀ f ∈ m.entries.filter P,
      key e.1 = key f.1 → e = f := by
    intro m e he f hf hk
    exact List.inj_on_of_nodup_map m.nodup (List.mem_filter.mp he).1 (List.mem_filter.mp hf).1 (hkey hk)
  -- filtering and sorting commute
  have hsorted : ∀ m : AssocMap κ α,
      (SortBy.sortBy (fun e => key e.1) m.entries).filter P =
        SortBy.sortBy (fun e => key e.1) (m.entries.filter P) := by
    intro m
    refine SortBy.eq_sortBy (hinj m) ((SortBy.sortBy_perm _ _).filter P) ?_
    exact (SortBy.sortBy_pairwise (fun e : κ × α => key e.1) m.entries).sublist List.filter_sublist
  rw [hsorted m, hsorted m']
  refine SortBy.sortBy_congr (hinj m') ?_
  rw [List.perm_ext_iff_of_nodup ((hnodup m).filter _) ((hnodup m').filter _)]
  rintro ⟨k, a⟩
  simp only [List.mem_filter, ← AssocMap.find?_eq_some_iff]
  constructor
  · rintro ⟨hfind, hP⟩
    exact ⟨(h k a hP).mp hfind, hP⟩
  · rintro ⟨hfind, hP⟩
    exact ⟨(h k a hP).mpr hfind, hP⟩

theorem inGuidOrder_filter_congr {m m' : AssocMap Guid α} {P : Guid × α → Bool}
    (h : ∀ g a, P (g, a) = true → (m.find? g = some a ↔ m'.find? g = some a)) :
    (inGuidOrder m).filter P = (inGuidOrder m').filter P :=
  sortBy_entries_filter_congr List.Vector.toList_injective h

theorem inNameOrder_filter_congr {m m' : AssocMap (List UInt8) α} {P : List UInt8 × α → Bool}
    (h : ∀ t a, P (t, a) = true → (m.find? t = some a ↔ m'.find? t = some a)) :
    (inNameOrder m).filter P = (inNameOrder m').filter P :=
  sortBy_entries_filter_congr Function.injective_id h

end Orders

namespace Monitor

/-- A live endpoint that `resolve_node` attributes to `n` writes (or reads) the DDS topic `t`. -/
def Attributed (self : Guid) (m : GraphState) (t : List UInt8) (writer : Bool) (n : List UInt8) : Prop :=
  ∃ g info s, m.endpoints.find? g = some info ∧ info.participant ≠ self ∧ info.topic = t ∧ info.writer = writer ∧
    m.resolveNode info.participant g = .ok (n, s)

/-- The same entries, but for those the participant `self` owns. -/
structure AgreeOutside (own : Guid) (m m' : GraphState) : Prop where
  participants : ∀ g, g ≠ own → m.participants.find? g = m'.participants.find? g
  discovery : ∀ g, g ≠ own → m.discovery.find? g = m'.discovery.find? g
  endpoints : ∀ g info, info.participant ≠ own → (m.endpoints.find? g = some info ↔ m'.endpoints.find? g = some info)
  logs : m.logs = m'.logs

variable {self : Guid} {m m' : GraphState}

theorem attributed_iff (h : m.NamesAccepted self) (t : List UInt8) (writer : Bool) (n : List UInt8) :
    m.Attributed self t writer n ↔ OnTopic (m.attributed self) t writer n := by
  constructor
  · rintro ⟨g, info, s, hfind, hp, ht, hw, hown⟩
    rw [resolveNode_eq h hp, Except.ok.injEq] at hown
    exact ⟨m.ascribe (g, info), mem_attributed.mpr ⟨g, info, hfind, hp, rfl⟩, ht, hw, congrArg Prod.fst hown⟩
  · rintro ⟨e, he, ht, hw, rfl⟩
    obtain ⟨g, info, hfind, hp, rfl⟩ := mem_attributed.mp he
    exact ⟨g, info, _, hfind, hp, ht, hw, resolveNode_eq h hp g⟩

/-- A node that has an endpoint is noted. -/
theorem noted_of_onTopic {t : List UInt8} {writer : Bool} {n : List UInt8}
    (h : OnTopic (m.attributed self) t writer n) : ∃ s, (n, s) ∈ m.notes self := by
  obtain ⟨e, he, -, -, rfl⟩ := h
  exact ⟨e.source, List.mem_append_left _ (List.mem_append_left _ (List.mem_map_of_mem he))⟩

theorem AgreeOutside.resolveNode (h : AgreeOutside self m m') {participant : Guid} (hp : participant ≠ self)
    (endpoint : Guid) : m.resolveNode participant endpoint = m'.resolveNode participant endpoint := by
  unfold Monitor.resolveNode
  rw [h.discovery participant hp, h.participants participant hp]

/-- What the monitor's own participant owns does not show. -/
theorem AgreeOutside.snapshot (h : AgreeOutside self m m') (serviceFirst : Bool) :
    m.snapshot serviceFirst self = m'.snapshot serviceFirst self := by
  have hlive : m.live self = m'.live self := by
    have hlist : (inGuidOrder m.endpoints).filter (fun e => e.2.participant ≠ self) =
        (inGuidOrder m'.endpoints).filter (fun e => e.2.participant ≠ self) :=
      inGuidOrder_filter_congr (fun g info hp => h.endpoints g info (by simpa using hp))
    unfold live
    rw [hlist]
    apply mapM_congr
    intro e he
    have hp : e.2.participant ≠ self := by simpa using (List.mem_filter.mp he).2
    rw [h.resolveNode hp]
  have hannounced : m.announced self = m'.announced self := by
    have hlist : (inGuidOrder m.discovery).filter (fun d => d.1 ≠ self) =
        (inGuidOrder m'.discovery).filter (fun d => d.1 ≠ self) :=
      inGuidOrder_filter_congr (fun g msg hg => by rw [h.discovery g (by simpa using hg)])
    unfold announced
    rw [hlist]
  have henclaves : m.enclaves self = m'.enclaves self := by
    have hlist : (inGuidOrder m.participants).filter (fun p => p.1 ≠ self ∧ p.2 ≠ []) =
        (inGuidOrder m'.participants).filter (fun p => p.1 ≠ self ∧ p.2 ≠ []) :=
      inGuidOrder_filter_congr (fun g enclave hg => by rw [h.participants g (of_decide_eq_true hg).1])
    unfold enclaves
    rw [hlist]
  unfold Monitor.snapshot sections
  rw [hlive, hannounced, henclaves, h.logs]

/-- The edges are those of the live endpoints. -/
theorem view_edges (h : m.NamesAccepted self) (serviceFirst : Bool) (e : Edge) :
    e ∈ (m.view serviceFirst self).edges ↔ ∃ t, isPlumbingTopic t = false ∧ Carries t e.kind e.name ∧
      m.Attributed self t true e.source ∧ m.Attributed self t false e.target := by
  have hspec := addEndpoint_spec (m.attributed self)
  simp only [attributed_iff h]
  rw [mem_view_edges]
  constructor
  · rintro ⟨t, agg, hagg, he⟩
    obtain ⟨hp, hc, hs, ht⟩ := mem_topicEdges.mp he
    obtain ⟨-, hw, hr⟩ := hspec.2 t agg hagg
    exact ⟨t, hp, hc, (hw _).mp hs, (hr _).mp ht⟩
  · rintro ⟨t, hp, hc, hs, ht⟩
    obtain ⟨agg, hagg⟩ := (hspec.1 t).mpr (by obtain ⟨x, hx, htop, -⟩ := hs; exact ⟨x, hx, htop⟩)
    obtain ⟨-, hw, hr⟩ := hspec.2 t agg hagg
    exact ⟨t, agg, hagg, mem_topicEdges.mpr ⟨hp, hc, (hw _).mpr hs, (hr _).mpr ht⟩⟩

/-- The names a section shows. -/
def Shown (s : Snapshot) (n : List UInt8) : Prop :=
  (∃ t ∈ s.topics, n ∈ t.publishers ∨ n ∈ t.subscriptions) ∨ (∃ t ∈ s.services, n ∈ t.servers ∨ n ∈ t.clients) ∨
    (∃ e ∈ s.edges, n = e.source ∨ n = e.target) ∨ ∃ e ∈ s.endpoints, n = e.node

theorem noted_of_shown (h : m.NamesAccepted self) (serviceFirst : Bool) {n : List UInt8}
    (hn : Shown (m.view serviceFirst self) n) : ∃ s, (n, s) ∈ m.notes self := by
  have hspec := (addEndpoint_spec (m.attributed self)).2
  have hagg : ∀ t agg, (m.aggregated self).find? t = some agg → n ∈ agg.writers ∨ n ∈ agg.readers →
      ∃ s, (n, s) ∈ m.notes self := by
    intro t agg hfind hn
    obtain ⟨-, hw, hr⟩ := hspec t agg hfind
    rcases hn with hn | hn
    · exact noted_of_onTopic ((hw n).mp hn)
    · exact noted_of_onTopic ((hr n).mp hn)
  rcases hn with ⟨e, he, hn⟩ | ⟨e, he, hn⟩ | ⟨e, he, hn⟩ | ⟨e, he, rfl⟩
  · obtain ⟨t, agg, hfind, hentry⟩ := (mem_view_topics serviceFirst).mp he
    obtain ⟨-, x, -, -, rfl⟩ := topicEntry_eq_some.mp hentry
    exact hagg t agg hfind (hn.imp mem_inOrder.mp mem_inOrder.mp)
  · obtain ⟨t, agg, hfind, hentry⟩ := (mem_view_services serviceFirst).mp he
    obtain ⟨x, -, -, rfl⟩ := serviceEntry_eq_some.mp hentry
    exact hagg t agg hfind (hn.symm.imp mem_inOrder.mp mem_inOrder.mp)
  · obtain ⟨t, -, -, hs, ht⟩ := (view_edges h serviceFirst e).mp he
    rw [attributed_iff h] at hs ht
    rcases hn with rfl | rfl
    · exact noted_of_onTopic hs
    · exact noted_of_onTopic ht
  · exact noted_of_onTopic ⟨e, he, rfl, rfl, rfl⟩

/-- The topic of an edge is listed once, with both ends of the edge. -/
theorem edge_topic (serviceFirst : Bool) {e : Edge} (he : e ∈ (m.view serviceFirst self).edges)
    (hk : e.kind = .topic) :
    ∃ t ∈ (m.view serviceFirst self).topics, t.topic = e.name ∧ e.source ∈ t.publishers ∧
      e.target ∈ t.subscriptions ∧ ∀ t' ∈ (m.view serviceFirst self).topics, t'.topic = e.name → t' = t := by
  obtain ⟨t, agg, hfind, hedge⟩ := (mem_view_edges serviceFirst).mp he
  obtain ⟨hp, hc, hs, ht⟩ := mem_topicEdges.mp hedge
  rw [hk] at hc
  obtain ⟨x, hx, rfl, hname⟩ := hc
  refine ⟨_, (mem_view_topics serviceFirst).mpr ⟨_, agg, hfind, topicEntry_eq_some.mpr ⟨hp, x, hx, rfl, rfl⟩⟩,
    hname.symm, mem_inOrder.mpr hs, mem_inOrder.mpr ht, ?_⟩
  intro t' ht' hsame
  obtain ⟨u, agg', hfind', hentry⟩ := (mem_view_topics serviceFirst).mp ht'
  obtain ⟨-, y, -, rfl, rfl⟩ := topicEntry_eq_some.mp hentry
  -- the name gives the DDS topic back
  obtain rfl : y = x := List.append_cancel_left (hsame.trans hname)
  rw [hfind, Option.some_inj] at hfind'
  rw [hfind']

theorem edge_service (serviceFirst : Bool) {e : Edge} (he : e ∈ (m.view serviceFirst self).edges)
    (hk : e.kind = .service) :
    ∃ t ∈ (m.view serviceFirst self).services, t.service = e.name ∧ e.source ∈ t.clients ∧
      e.target ∈ t.servers ∧ ∀ t' ∈ (m.view serviceFirst self).services, t'.service = e.name → t' = t := by
  obtain ⟨t, agg, hfind, hedge⟩ := (mem_view_edges serviceFirst).mp he
  obtain ⟨-, hc, hs, ht⟩ := mem_topicEdges.mp hedge
  rw [hk] at hc
  obtain ⟨x, hx, rfl, hname⟩ := hc
  refine ⟨_, (mem_view_services serviceFirst).mpr ⟨_, agg, hfind, serviceEntry_eq_some.mpr ⟨x, hx, rfl, rfl⟩⟩,
    hname.symm, mem_inOrder.mpr hs, mem_inOrder.mpr ht, ?_⟩
  intro t' ht' hsame
  obtain ⟨u, agg', hfind', hentry⟩ := (mem_view_services serviceFirst).mp ht'
  obtain ⟨y, -, rfl, rfl⟩ := serviceEntry_eq_some.mp hentry
  obtain rfl : y = x := List.append_cancel_left (hsame.trans hname)
  rw [hfind, Option.some_inj] at hfind'
  rw [hfind']

theorem snapshotJson_ok {serviceFirst : Bool} {b : List UInt8} (h : m.snapshotJson serviceFirst self = .ok b) :
    ∃ s, m.snapshot serviceFirst self = .ok s ∧ b = s.dump := by
  unfold snapshotJson at h
  cases hs : m.snapshot serviceFirst self with
  | error e =>
    rw [hs] at h
    cases h
  | ok s =>
    rw [hs] at h
    exact ⟨s, rfl, (Except.ok.inj h).symm⟩

/-- Whenever `snapshot_json` returns: the edges are exactly those of the live endpoints, each once; a node
that is shown is among the nodes, once; the ends of an edge are in the lists of its topic or service; and
nothing of this depends on what the monitor's own participant owns. -/
theorem snapshot_exact (serviceFirst : Bool) (self : Guid) (m : GraphState) (b : List UInt8)
    (h : m.snapshotJson serviceFirst self = .ok b) :
    ∃ s, m.snapshot serviceFirst self = .ok s ∧ b = s.dump ∧
      (s.edges.Nodup ∧ ∀ n1 n2 name kind, (⟨n1, n2, name, kind⟩ : Edge) ∈ s.edges ↔
        ∃ t, isPlumbingTopic t = false ∧ Carries t kind name ∧ m.Attributed self t true n1 ∧
          m.Attributed self t false n2) ∧
      (∀ n, Shown s n → (s.nodes.map Prod.fst).count n = 1) ∧
      (∀ e ∈ s.edges, e.kind = .topic → ∃ t ∈ s.topics, t.topic = e.name ∧ e.source ∈ t.publishers ∧
        e.target ∈ t.subscriptions ∧ ∀ t' ∈ s.topics, t'.topic = e.name → t' = t) ∧
      (∀ e ∈ s.edges, e.kind = .service → ∃ t ∈ s.services, t.service = e.name ∧ e.source ∈ t.clients ∧
        e.target ∈ t.servers ∧ ∀ t' ∈ s.services, t'.service = e.name → t' = t) ∧
      ∀ m', AgreeOutside self m m' → m'.snapshot serviceFirst self = .ok s ∧
        m'.snapshotJson serviceFirst self = .ok b := by
  obtain ⟨s, hs, hb⟩ := snapshotJson_ok h
  obtain ⟨hacc, rfl⟩ := (snapshot_ok_iff serviceFirst s).mp hs
  refine ⟨_, hs, hb, ⟨SortBy.nodup_toSet _ _, fun n1 n2 name kind => view_edges hacc serviceFirst _⟩, ?_,
    fun e he => edge_topic serviceFirst he, fun e he => edge_service serviceFirst he, ?_⟩
  · intro n hn
    have hmem := (view_nodes_names serviceFirst n).mpr (noted_of_shown hacc serviceFirst hn)
    exact List.count_eq_one_of_mem (view_nodes_nodup serviceFirst) hmem
  · intro m' hagree
    have hsame := hagree.snapshot serviceFirst
    refine ⟨hsame.symm.trans hs, ?_⟩
    rw [← h]
    unfold snapshotJson
    rw [hsame]

/-- A talker and a listener on one DDS topic, known by the user data of their participants. -/
def chatter (topic : List UInt8) : GraphState :=
  { (new : GraphState) with
    participants := (AssocMap.empty.insert (List.Vector.replicate 16 1) (literal "/talker")).insert
      (List.Vector.replicate 16 2) (literal "/listener")
    endpoints := (AssocMap.empty.insert (List.Vector.replicate 16 3)
      ⟨List.Vector.replicate 16 1, topic, literal "String_", true⟩).insert
      (List.Vector.replicate 16 4) ⟨List.Vector.replicate 16 2, topic, literal "String_", false⟩ }

theorem chatter_accepted (topic : List UInt8) : (chatter topic).NamesAccepted (List.Vector.replicate 16 0) := by
  intro n hn
  obtain ⟨g, msg, hfind, -⟩ := mem_announced.mp hn
  cases hfind

theorem chatter_snapshotJson (topic : List UInt8) :
    ∃ b, (chatter topic).snapshotJson true (List.Vector.replicate 16 0) = .ok b := by
  unfold snapshotJson
  rw [snapshot_eq true (chatter_accepted _)]
  exact ⟨_, rfl⟩

theorem chatter_writes (topic : List UInt8) :
    (chatter topic).Attributed (List.Vector.replicate 16 0) topic true (literal "/talker") := by
  have hself : (List.Vector.replicate 16 1 : Guid) ≠ List.Vector.replicate 16 0 := by decide
  exact ⟨List.Vector.replicate 16 3, _, .userData, rfl, hself, rfl, rfl, rfl⟩

theorem chatter_reads (topic : List UInt8) :
    (chatter topic).Attributed (List.Vector.replicate 16 0) topic false (literal "/listener") := by
  have hself : (List.Vector.replicate 16 2 : Guid) ≠ List.Vector.replicate 16 0 := by decide
  exact ⟨List.Vector.replicate 16 4, _, .userData, rfl, hself, rfl, rfl, rfl⟩

theorem snapshot_exact_chatter :
    ∃ (b : List UInt8) (s : Snapshot),
      (chatter (literal "rt/chatter")).snapshotJson true (List.Vector.replicate 16 0) = .ok b ∧ b = s.dump ∧
      ⟨literal "/talker", literal "/listener", literal "/chatter", .topic⟩ ∈ s.edges := by
  obtain ⟨b, hb⟩ := chatter_snapshotJson (literal "rt/chatter")
  obtain ⟨s, -, hdump, ⟨-, hedges⟩, -⟩ :=
    snapshot_exact true (List.Vector.replicate 16 0) (chatter (literal "rt/chatter")) b hb
  exact ⟨b, s, hb, hdump, (hedges _ _ _ _).mpr ⟨literal "rt/chatter", by decide,
    ⟨literal "chatter", by decide, by decide, by decide⟩, chatter_writes _, chatter_reads _⟩⟩

/-- The DDS topic `rt/`, which is written and read, is no plumbing, and still gives no edge. -/
theorem bare_prefix_no_edge :
    ∃ s : Snapshot, (chatter (literal "rt/")).snapshot true (List.Vector.replicate 16 0) = .ok s ∧
      isPlumbingTopic (literal "rt/" ++ []) = false ∧
      (chatter (literal "rt/")).Attributed (List.Vector.replicate 16 0) (literal "rt/" ++ []) true (literal "/talker") ∧
      (chatter (literal "rt/")).Attributed (List.Vector.replicate 16 0) (literal "rt/" ++ []) false
        (literal "/listener") ∧
      ⟨literal "/talker", literal "/listener", literal "/" ++ [], .topic⟩ ∉ s.edges := by
  rw [snapshot_eq true (chatter_accepted _), List.append_nil, List.append_nil]
  refine ⟨_, rfl, by decide, chatter_writes _, chatter_reads _, fun hmem => ?_⟩
  obtain ⟨t, -, ⟨x, hx, -, hname⟩, -⟩ := (view_edges (chatter_accepted _) true _).mp hmem
  have hnil : literal "/" ++ [] = literal "/" ++ x := (List.append_nil _).trans hname
  exact hx (List.append_cancel_left hnil).symm

end Monitor

end Rcllite
