import Rcllite.GraphSnapshot

/-! What a snapshot is made of: which states have one, and what its sections hold in terms of the
monitor's maps. -/
namespace Rcllite
open Utf8 (literal)

section Except
variable {ε α β : Type}

theorem mapM_congr {f g : α → Except ε β} {l : List α} (h : ∀ a ∈ l, f a = g a) : l.mapM f = l.mapM g := by
  induction l with
  | nil => rfl
  | cons a l ih =>
    obtain ⟨ha, hl⟩ := List.forall_mem_cons.mp h
    rw [List.mapM_cons, List.mapM_cons, ha, ih hl]

theorem mapM_ok {f : α → Except ε β} {g : α → β} {l : List α} (h : ∀ a ∈ l, f a = .ok (g a)) :
    l.mapM f = .ok (l.map g) := by
  have hpure : l.mapM f = l.mapM (fun a => pure (g a)) := mapM_congr h
  rw [hpure, List.mapM_pure]
  rfl

theorem mapM_error {f : α → Except ε β} {l : List α} (h : ∃ a ∈ l, ∃ e, f a = .error e) :
    ∃ e, l.mapM f = .error e := by
  induction l with
  | nil => simp at h
  | cons a l ih =>
    rw [List.mapM_cons]
    cases ha : f a with
    | error e => exact ⟨e, rfl⟩
    | ok b =>
      obtain ⟨x, hx, e, he⟩ := h
      rcases List.mem_cons.mp hx with rfl | hx
      · rw [ha] at he
        cases he
      · obtain ⟨e', he'⟩ := ih ⟨x, hx, e, he⟩
        exact ⟨e', by rw [he']; rfl⟩

end Except

section Orders
variable {α : Type}

theorem mem_inGuidOrder {m : AssocMap Guid α} {k : Guid} {v : α} : (k, v) ∈ inGuidOrder m ↔ m.find? k = some v := by
  rw [inGuidOrder, SortBy.mem_sortBy, AssocMap.find?_eq_some_iff]

theorem mem_inNameOrder {m : AssocMap (List UInt8) α} {k : List UInt8} {v : α} :
    (k, v) ∈ inNameOrder m ↔ m.find? k = some v := by
  rw [inNameOrder, SortBy.mem_sortBy, AssocMap.find?_eq_some_iff]

theorem inNameOrder_nodup (m : AssocMap (List UInt8) α) : ((inNameOrder m).map Prod.fst).Nodup :=
  (((SortBy.sortBy_perm Prod.fst m.entries).map Prod.fst).nodup_iff).mpr m.nodup

theorem mem_inOrder {names : List (List UInt8)} {n : List UInt8} : n ∈ inOrder names ↔ n ∈ names := SortBy.mem_toSet

end Orders

section Notes

/-- The nodes on record are the ones noted, each with the best source it was noted with. -/
theorem noteNode_spec (notes : List (List UInt8 × NodeSource)) :
    (∀ name, (∃ a, (notes.foldl noteNode .empty).find? name = some a) ↔ ∃ s, (name, s) ∈ notes) ∧
    ∀ name a, (notes.foldl noteNode .empty).find? name = some a →
      (name, a.source) ∈ notes ∧ a.rank = a.source.rank ∧ ∀ s, (name, s) ∈ notes → s.rank ≤ a.rank := by
  -- `note_node` is called in the order of the list, so the induction takes the last note off
  induction notes using List.reverseRecOn with
  | nil => exact ⟨by simp [AssocMap.empty, AssocMap.find?], by simp [AssocMap.empty, AssocMap.find?]⟩
  | append_singleton notes note ih =>
    obtain ⟨name', s'⟩ := note
    obtain ⟨hkeys, hattrib⟩ := ih
    rw [List.foldl_append, List.foldl_cons, List.foldl_nil, noteNode]
    generalize notes.foldl noteNode .empty = nodes at hkeys hattrib
    constructor
    · intro name
      by_cases h : name = name'
      · subst h
        simp
      · rw [AssocMap.find?_insert_ne _ _ h, hkeys]
        simp [h]
    · intro name a ha
      by_cases h : name = name'
      · subst h
        rw [AssocMap.find?_insert_self, Option.some_inj] at ha
        subst ha
        have hpos : 0 < s'.rank := by cases s' <;> decide
        cases hfind : nodes.find? name with
        | none =>
          have hnew : ∀ s, (name, s) ∉ notes := fun s hs => by
            obtain ⟨a, ha⟩ := (hkeys name).mpr ⟨s, hs⟩
            rw [hfind] at ha
            cases ha
          simp [hpos, hnew]
        | some a =>
          obtain ⟨hmem, hrank, hbest⟩ := hattrib name a hfind
          simp only [Option.getD_some]
          split_ifs with hlt
          · -- a better source: no earlier one is better
            refine ⟨by simp, rfl, fun s hs => ?_⟩
            rcases List.mem_append.mp hs with hs | hs
            · exact (hbest s hs).trans hlt.le
            · rw [(Prod.mk.inj (List.mem_singleton.mp hs)).2]
          · refine ⟨List.mem_append_left _ hmem, hrank, fun s hs => ?_⟩
            rcases List.mem_append.mp hs with hs | hs
            · exact hbest s hs
            · rw [(Prod.mk.inj (List.mem_singleton.mp hs)).2]
              exact Nat.le_of_not_lt hlt
      · rw [AssocMap.find?_insert_ne _ _ h] at ha
        obtain ⟨hmem, hrank, hbest⟩ := hattrib name a ha
        refine ⟨List.mem_append_left _ hmem, hrank, fun s hs => hbest s ?_⟩
        rcases List.mem_append.mp hs with hs | hs
        · exact hs
        · exact absurd (Prod.mk.inj (List.mem_singleton.mp hs)).1 h

/-- An endpoint of node `n` writes (or reads) the DDS topic `t`. -/
def OnTopic (live : List LiveEndpoint) (t : List UInt8) (writer : Bool) (n : List UInt8) : Prop :=
  ∃ e ∈ live, e.info.topic = t ∧ e.info.writer = writer ∧ e.node = n

theorem onTopic_snoc (live : List LiveEndpoint) (x : LiveEndpoint) (t : List UInt8) (writer : Bool)
    (n : List UInt8) :
    OnTopic (live ++ [x]) t writer n ↔
      OnTopic live t writer n ∨ (x.info.topic = t ∧ x.info.writer = writer ∧ x.node = n) := by
  simp [OnTopic, or_and_right, exists_or]

/-- A topic is listed for its endpoints: it has the type of one of them, and their nodes. -/
theorem addEndpoint_spec (live : List LiveEndpoint) :
    (∀ t, (∃ agg, (live.foldl addEndpoint .empty).find? t = some agg) ↔ ∃ e ∈ live, e.info.topic = t) ∧
    ∀ t agg, (live.foldl addEndpoint .empty).find? t = some agg →
      (∃ e ∈ live, e.info.topic = t ∧ e.info.type = agg.type) ∧
      (∀ n, n ∈ agg.writers ↔ OnTopic live t true n) ∧ ∀ n, n ∈ agg.readers ↔ OnTopic live t false n := by
  induction live using List.reverseRecOn with
  | nil => exact ⟨by simp [AssocMap.empty, AssocMap.find?], by simp [AssocMap.empty, AssocMap.find?]⟩
  | append_singleton live x ih =>
    obtain ⟨hkeys, hagg⟩ := ih
    rw [List.foldl_append, List.foldl_cons, List.foldl_nil, addEndpoint]
    generalize live.foldl addEndpoint .empty = topics at hkeys hagg
    constructor
    · intro t
      by_cases h : t = x.info.topic
      · subst h
        simp
      · rw [AssocMap.find?_insert_ne _ _ h, hkeys]
        simp [Ne.symm h, or_and_right, exists_or]
    · intro t agg ha
      simp only [onTopic_snoc]
      by_cases h : t = x.info.topic
      · subst h
        rw [AssocMap.find?_insert_self, Option.some_inj] at ha
        -- the nodes on record so far, whether the topic is new or not
        have hold : (∀ n, n ∈ ((topics.find? x.info.topic).getD ⟨[], [], []⟩).writers ↔
              OnTopic live x.info.topic true n) ∧
            ∀ n, n ∈ ((topics.find? x.info.topic).getD ⟨[], [], []⟩).readers ↔
              OnTopic live x.info.topic false n := by
          cases hfind : topics.find? x.info.topic with
          | some old => exact (hagg _ old hfind).2
          | none =>
            have hnew : ∀ w n, ¬ OnTopic live x.info.topic w n := by
              rintro w n ⟨e, he, ht, -⟩
              obtain ⟨a, ha⟩ := (hkeys x.info.topic).mpr ⟨e, he, ht⟩
              rw [hfind] at ha
              cases ha
            simp [hnew]
        obtain ⟨hw, hr⟩ := hold
        subst ha
        refine ⟨⟨x, by simp, rfl, ?_⟩, fun n => ?_, fun n => ?_⟩
        · split_ifs <;> rfl
        · cases hx : x.info.writer <;> simp [hw, or_comm, eq_comm]
        · cases hx : x.info.writer <;> simp [hr, or_comm, eq_comm]
      · rw [AssocMap.find?_insert_ne _ _ h] at ha
        obtain ⟨⟨e, he, ht, htype⟩, hw, hr⟩ := hagg t agg ha
        refine ⟨⟨e, List.mem_append_left _ he, ht, htype⟩, fun n => ?_, fun n => ?_⟩
        · simp [hw, Ne.symm h]
        · simp [hr, Ne.symm h]

end Notes

section Forms

/-- The string conditions of the source, for a topic: `rt/<x>` with something for `<x>`. -/
theorem topic_form (t : List UInt8) :
    ((literal "rt/").isPrefixOf t = true ∧ 3 < t.length) ↔ ∃ x, x ≠ [] ∧ t = literal "rt/" ++ x := by
  have hlen : (literal "rt/").length = 3 := by decide
  constructor
  · rintro ⟨hp, hl⟩
    obtain ⟨x, rfl⟩ := List.isPrefixOf_iff_prefix.mp hp
    refine ⟨x, ?_, rfl⟩
    rintro rfl
    rw [List.append_nil, hlen] at hl
    omega
  · rintro ⟨x, hx, rfl⟩
    refine ⟨List.isPrefixOf_iff_prefix.mpr (List.prefix_append _ _), ?_⟩
    rw [List.length_append, hlen]
    have := List.length_pos_iff.mpr hx
    omega

/-- For a service: `rq/<x>Request` with something for `<x>`. -/
theorem request_form (t : List UInt8) :
    ((literal "rq/").isPrefixOf t = true ∧ 10 < t.length ∧ (t.drop (t.length - 7)).take 7 = literal "Request") ↔
      ∃ x, x ≠ [] ∧ t = literal "rq/" ++ x ++ literal "Request" := by
  have hrq : (literal "rq/").length = 3 := by decide
  have hreq : (literal "Request").length = 7 := by decide
  constructor
  · rintro ⟨hp, hl, hs⟩
    obtain ⟨rest, rfl⟩ := List.isPrefixOf_iff_prefix.mp hp
    rw [List.length_append, hrq] at hl hs
    -- the last seven bytes lie behind the first three
    have hdrop : (literal "rq/" ++ rest).drop (3 + rest.length - 7) = rest.drop (rest.length - 7) := by
      rw [List.drop_append, hrq, List.drop_eq_nil_of_le (by rw [hrq]; omega), List.nil_append]
      congr 1
      omega
    rw [hdrop, List.take_of_length_le (by rw [List.length_drop]; omega)] at hs
    refine ⟨rest.take (rest.length - 7), ?_, ?_⟩
    · rw [Ne, ← List.length_eq_zero_iff, List.length_take]
      omega
    · rw [← hs, List.append_assoc, List.take_append_drop]
  · rintro ⟨x, hx, rfl⟩
    have hpos := List.length_pos_iff.mpr hx
    rw [List.append_assoc]
    refine ⟨List.isPrefixOf_iff_prefix.mpr (List.prefix_append _ _), ?_, ?_⟩
    · simp only [List.length_append, hrq, hreq]
      omega
    · rw [← List.append_assoc, List.length_append, hreq, Nat.add_sub_cancel, List.drop_left, ← hreq, List.take_length]

theorem topic_name (x : List UInt8) : (literal "rt/" ++ x).drop 3 = x := by
  have hlen : (literal "rt/").length = 3 := by decide
  rw [← hlen, List.drop_left]

theorem request_name (x : List UInt8) :
    ((literal "rq/" ++ x ++ literal "Request").drop 3).take ((literal "rq/" ++ x ++ literal "Request").length - 3 - 7) = x := by
  have hrq : (literal "rq/").length = 3 := by decide
  have hreq : (literal "Request").length = 7 := by decide
  have hcount : (literal "rq/" ++ x ++ literal "Request").length - 3 - 7 = x.length := by
    simp only [List.length_append, hrq, hreq]
    omega
  rw [hcount, List.append_assoc, ← hrq, List.drop_left, List.take_left]

/-- The name gives the DDS topic back. -/
theorem request_inj {x y : List UInt8}
    (h : literal "rq/" ++ x ++ literal "Request" = literal "rq/" ++ y ++ literal "Request") : x = y :=
  List.append_cancel_left (List.append_cancel_right h)

theorem topic_ne_request {x y : List UInt8} : literal "rt/" ++ x ≠ literal "rq/" ++ y := by
  have h : literal "rt/" = [0x72, 0x74, 0x2f] := by decide
  have h' : literal "rq/" = [0x72, 0x71, 0x2f] := by decide
  rw [h, h']
  simp

variable {t : List UInt8} {agg : TopicAgg}

theorem topicEntry_eq_some {e : TopicEntry} :
    topicEntry t agg = some e ↔ isPlumbingTopic t = false ∧ ∃ x, x ≠ [] ∧ t = literal "rt/" ++ x ∧
      e = ⟨literal "/" ++ x, agg.type, inOrder agg.writers, inOrder agg.readers⟩ := by
  have hform := topic_form t
  unfold topicEntry
  split_ifs with h
  · refine ⟨nofun, ?_⟩
    rintro ⟨hp, x, hx, ht, -⟩
    obtain ⟨hpre, hlen⟩ := hform.mpr ⟨x, hx, ht⟩
    rw [hpre, hp] at h
    simp at h
    omega
  · simp only [not_or, Decidable.not_not] at h
    obtain ⟨hpre, hlen, hp⟩ := h
    rw [Bool.not_eq_true] at hp
    obtain ⟨x, hx, rfl⟩ := hform.mp ⟨hpre, by omega⟩
    rw [Option.some_inj, topic_name]
    constructor
    · rintro rfl
      exact ⟨hp, x, hx, rfl, rfl⟩
    · rintro ⟨-, y, -, hy, rfl⟩
      rw [List.append_cancel_left hy]

theorem serviceEntry_eq_some {e : ServiceEntry} :
    serviceEntry t agg = some e ↔ ∃ x, x ≠ [] ∧ t = literal "rq/" ++ x ++ literal "Request" ∧
      e = ⟨literal "/" ++ x, agg.type, inOrder agg.readers, inOrder agg.writers⟩ := by
  have hform := request_form t
  unfold serviceEntry
  split_ifs with h
  · refine ⟨nofun, ?_⟩
    rintro ⟨x, hx, ht, -⟩
    obtain ⟨hpre, hlen, hsuf⟩ := hform.mpr ⟨x, hx, ht⟩
    rw [hpre, hsuf] at h
    simp at h
    omega
  · simp only [not_or, Decidable.not_not] at h
    obtain ⟨hpre, hlen, hsuf⟩ := h
    obtain ⟨x, hx, rfl⟩ := hform.mp ⟨hpre, by omega, hsuf⟩
    rw [Option.some_inj, request_name]
    constructor
    · rintro rfl
      exact ⟨x, hx, rfl, rfl⟩
    · rintro ⟨y, -, hy, rfl⟩
      rw [request_inj hy]

/-- The DDS topic `t` carries the data of the topic, or the requests of the service, called `name`. -/
def Carries (t : List UInt8) : EdgeKind → List UInt8 → Prop
  | .topic, name => ∃ x, x ≠ [] ∧ t = literal "rt/" ++ x ∧ name = literal "/" ++ x
  | .service, name => ∃ x, x ≠ [] ∧ t = literal "rq/" ++ x ++ literal "Request" ∧ name = literal "/" ++ x

/-- One edge for every pair of a writer and a reader. -/
theorem mem_edges_between {e : Edge} {n : List UInt8} {k : EdgeKind} :
    e ∈ agg.writers.flatMap (fun w => agg.readers.map (fun r => (⟨w, r, n, k⟩ : Edge))) ↔
      n = e.name ∧ k = e.kind ∧ e.source ∈ agg.writers ∧ e.target ∈ agg.readers := by
  simp only [List.mem_flatMap, List.mem_map]
  constructor
  · rintro ⟨w, hw, r, hr, rfl⟩
    exact ⟨rfl, rfl, hw, hr⟩
  · rintro ⟨rfl, rfl, hw, hr⟩
    exact ⟨e.source, hw, e.target, hr, rfl⟩

theorem carries_topic {x name : List UInt8} (hx : x ≠ []) {kind : EdgeKind} :
    Carries (literal "rt/" ++ x) kind name ↔ literal "/" ++ x = name ∧ .topic = kind := by
  constructor
  · intro hc
    cases kind with
    | topic =>
      obtain ⟨y, -, hy, rfl⟩ := hc
      exact ⟨by rw [List.append_cancel_left hy], rfl⟩
    | service =>
      obtain ⟨y, -, hy, -⟩ := hc
      rw [List.append_assoc] at hy
      exact absurd hy topic_ne_request
  · rintro ⟨rfl, rfl⟩
    exact ⟨x, hx, rfl, rfl⟩

theorem carries_request {x name : List UInt8} (hx : x ≠ []) {kind : EdgeKind} :
    Carries (literal "rq/" ++ x ++ literal "Request") kind name ↔ literal "/" ++ x = name ∧ .service = kind := by
  constructor
  · intro hc
    cases kind with
    | topic =>
      obtain ⟨y, -, hy, -⟩ := hc
      rw [List.append_assoc] at hy
      exact absurd hy.symm topic_ne_request
    | service =>
      obtain ⟨y, -, hy, rfl⟩ := hc
      exact ⟨by rw [request_inj hy], rfl⟩
  · rintro ⟨rfl, rfl⟩
    exact ⟨x, hx, rfl, rfl⟩

theorem mem_topicEdges {e : Edge} :
    e ∈ topicEdges t agg ↔ isPlumbingTopic t = false ∧ Carries t e.kind e.name ∧ e.source ∈ agg.writers ∧
      e.target ∈ agg.readers := by
  unfold topicEdges
  split_ifs with hp hreq htop
  · simp [hp]
  · obtain ⟨x, hx, rfl⟩ := (request_form t).mp hreq
    dsimp only
    rw [mem_edges_between, request_name, carries_request hx, and_assoc]
    exact (and_iff_right (by simpa using hp)).symm
  · obtain ⟨x, hx, rfl⟩ := (topic_form t).mp htop
    dsimp only
    rw [mem_edges_between, topic_name, carries_topic hx, and_assoc]
    exact (and_iff_right (by simpa using hp)).symm
  · -- neither form, so there is nothing to carry
    obtain ⟨source, target, name, kind⟩ := e
    refine ⟨nofun, ?_⟩
    rintro ⟨-, hc, -⟩
    cases kind with
    | topic =>
      obtain ⟨y, hy, ht, -⟩ := hc
      exact absurd ((topic_form t).mpr ⟨y, hy, ht⟩) htop
    | service =>
      obtain ⟨y, hy, ht, -⟩ := hc
      exact absurd ((request_form t).mpr ⟨y, hy, ht⟩) hreq

end Forms

namespace Monitor

/-- The owner that `resolve_node` finds when it does not throw. -/
def owner (m : GraphState) (participant endpoint : Guid) : List UInt8 × NodeSource :=
  match (m.discovery.find? participant).bind (fun msg => (nodeInfos msg).find? (fun n => n.owns endpoint)) with
  | some n => (fqNodeName n.nodeNamespace n.nodeName, .discovery)
  | none =>
    match m.participants.find? participant with
    | some (c :: enclave) => (c :: enclave, .userData)
    | _ => (literal "participant:" ++ guidHex participant, .anonymous)

/-- A live endpoint as it is listed. -/
def ascribe (m : GraphState) (e : Guid × EndpointInfo) : LiveEndpoint :=
  ⟨e.1, e.2, (m.owner e.2.participant e.1).1, (m.owner e.2.participant e.1).2⟩

/-- The live endpoints when nothing is thrown. -/
def attributed (self : Guid) (m : GraphState) : List LiveEndpoint :=
  ((inGuidOrder m.endpoints).filter (fun e => e.2.participant ≠ self)).map m.ascribe

/-- What is noted when nothing is thrown. -/
def notes (self : Guid) (m : GraphState) : List (List UInt8 × NodeSource) :=
  (m.attributed self).map (fun e => (e.node, e.source)) ++
    (m.announced self).map (fun n => (fqNodeName n.nodeNamespace n.nodeName, .discovery)) ++
    (m.enclaves self).map (fun enclave => (enclave, .userData))

/-- The snapshot when nothing is thrown. -/
def view (serviceFirst : Bool) (self : Guid) (m : GraphState) : Snapshot :=
  m.sections serviceFirst (m.attributed self) (m.notes self)

/-- `make_fq_node_name` accepts every name that others announce. -/
def NamesAccepted (self : Guid) (m : GraphState) : Prop :=
  ∀ n ∈ m.announced self, AcceptedName n.nodeNamespace n.nodeName

variable {self : Guid} {m : GraphState}

theorem mem_announced {n : NodeEntitiesInfo} :
    n ∈ m.announced self ↔ ∃ g msg, m.discovery.find? g = some msg ∧ g ≠ self ∧ n ∈ nodeInfos msg := by
  simp only [announced, List.mem_flatMap, List.mem_filter, Prod.exists, mem_inGuidOrder, decide_eq_true_eq,
    and_assoc]

theorem mem_attributed {e : LiveEndpoint} :
    e ∈ m.attributed self ↔
      ∃ g info, m.endpoints.find? g = some info ∧ info.participant ≠ self ∧ e = m.ascribe (g, info) := by
  simp only [attributed, List.mem_map, List.mem_filter, Prod.exists, mem_inGuidOrder, decide_eq_true_eq, and_assoc,
    eq_comm (b := e)]

theorem mem_enclaves {enclave : List UInt8} :
    enclave ∈ m.enclaves self ↔ ∃ g, m.participants.find? g = some enclave ∧ g ≠ self ∧ enclave ≠ [] := by
  simp only [enclaves, List.mem_map, List.mem_filter, Prod.exists, mem_inGuidOrder, decide_eq_true_eq]
  constructor
  · rintro ⟨g, e, ⟨hfind, hne⟩, rfl⟩
    exact ⟨g, hfind, hne⟩
  · rintro ⟨g, hfind, hne⟩
    exact ⟨g, enclave, ⟨hfind, hne⟩, rfl⟩

theorem resolveNode_eq (h : m.NamesAccepted self) {participant : Guid} (hp : participant ≠ self) (endpoint : Guid) :
    m.resolveNode participant endpoint = .ok (m.owner participant endpoint) := by
  unfold resolveNode owner
  cases hn : (m.discovery.find? participant).bind
      (fun msg => (nodeInfos msg).find? (fun n => n.owns endpoint)) with
  | some n =>
    obtain ⟨msg, hmsg, hfind⟩ := Option.bind_eq_some_iff.mp hn
    have hacc := h n (mem_announced.mpr ⟨participant, msg, hmsg, hp, List.mem_of_find?_eq_some hfind⟩)
    dsimp only
    rw [makeFqNodeName_accepted hacc]
    rfl
  | none =>
    dsimp only
    rcases m.participants.find? participant with _ | _ | ⟨c, enclave⟩ <;> rfl

theorem snapshot_eq (serviceFirst : Bool) (h : m.NamesAccepted self) :
    m.snapshot serviceFirst self = .ok (m.view serviceFirst self) := by
  have hlive : m.live self = .ok (m.attributed self) := by
    apply mapM_ok
    intro e he
    have hp : e.2.participant ≠ self := by simpa using (List.mem_filter.mp he).2
    rw [resolveNode_eq h hp]
    rfl
  have hnames : (m.announced self).mapM (fun n => makeFqNodeName n.nodeNamespace n.nodeName) =
      .ok ((m.announced self).map (fun n => fqNodeName n.nodeNamespace n.nodeName)) :=
    mapM_ok (fun n hn => makeFqNodeName_accepted (h n hn))
  have hdone : m.snapshot serviceFirst self = .ok (m.sections serviceFirst (m.attributed self)
      ((m.attributed self).map (fun e => (e.node, e.source)) ++
        ((m.announced self).map (fun n => fqNodeName n.nodeNamespace n.nodeName)).map
          (fun name => (name, .discovery)) ++
        (m.enclaves self).map (fun enclave => (enclave, .userData)))) := by
    unfold snapshot
    rw [hlive, hnames]
    rfl
  rw [hdone, List.map_map]
  rfl

/-- A name that is not accepted spoils the snapshot. -/
theorem snapshot_error (serviceFirst : Bool) (h : ¬ m.NamesAccepted self) :
    ∃ e, m.snapshot serviceFirst self = .error e := by
  have hnames : ∃ e, (m.announced self).mapM (fun n => makeFqNodeName n.nodeNamespace n.nodeName) = .error e := by
    apply mapM_error
    by_contra hno
    apply h
    intro n hn
    by_contra hacc
    exact hno ⟨n, hn, makeFqNodeName_error hacc⟩
  obtain ⟨e, he⟩ := hnames
  unfold snapshot
  rw [he]
  -- `resolve_node` may have thrown before
  cases m.live self with
  | error e' => exact ⟨e', rfl⟩
  | ok l => exact ⟨e, rfl⟩

theorem snapshot_ok_iff (serviceFirst : Bool) (s : Snapshot) :
    m.snapshot serviceFirst self = .ok s ↔ m.NamesAccepted self ∧ s = m.view serviceFirst self := by
  by_cases h : m.NamesAccepted self
  · rw [snapshot_eq serviceFirst h, Except.ok.injEq, eq_comm]
    exact ⟨fun hs => ⟨h, hs⟩, fun hs => hs.2⟩
  · obtain ⟨e, he⟩ := snapshot_error serviceFirst h
    rw [he]
    exact ⟨nofun, fun hs => absurd hs.1 h⟩

/-- The node section holds what was noted, under the best of its sources. -/
theorem mem_view_nodes (serviceFirst : Bool) {name : List UInt8} {s : NodeSource}
    (h : (name, s) ∈ (m.view serviceFirst self).nodes) :
    (name, s) ∈ m.notes self ∧ ∀ s', (name, s') ∈ m.notes self → s'.rank ≤ s.rank := by
  obtain ⟨⟨n, a⟩, ha, heq⟩ := List.mem_map.mp h
  obtain ⟨rfl, rfl⟩ := Prod.mk.inj heq
  obtain ⟨hmem, hrank, hbest⟩ := (noteNode_spec (m.notes self)).2 n a (mem_inNameOrder.mp ha)
  exact ⟨hmem, fun s' hs' => hrank ▸ hbest s' hs'⟩

theorem view_nodes_names (serviceFirst : Bool) (name : List UInt8) :
    name ∈ (m.view serviceFirst self).nodes.map Prod.fst ↔ ∃ s, (name, s) ∈ m.notes self := by
  rw [← (noteNode_spec (m.notes self)).1]
  simp only [view, sections, List.map_map, List.mem_map, Prod.exists, mem_inNameOrder, Function.comp_apply]
  constructor
  · rintro ⟨n, a, ha, rfl⟩
    exact ⟨a, ha⟩
  · rintro ⟨a, ha⟩
    exact ⟨name, a, ha, rfl⟩

theorem view_nodes_nodup (serviceFirst : Bool) : ((m.view serviceFirst self).nodes.map Prod.fst).Nodup := by
  have hnames := inNameOrder_nodup ((m.notes self).foldl noteNode .empty)
  simpa [view, sections, Function.comp_def] using hnames

/-- The topics that are aggregated. -/
def aggregated (self : Guid) (m : GraphState) : AssocMap (List UInt8) TopicAgg :=
  (m.attributed self).foldl addEndpoint .empty

theorem mem_view_topics (serviceFirst : Bool) {e : TopicEntry} :
    e ∈ (m.view serviceFirst self).topics ↔
      ∃ t agg, (m.aggregated self).find? t = some agg ∧ topicEntry t agg = some e := by
  simp only [view, sections, List.mem_filterMap, Prod.exists, mem_inNameOrder, aggregated]

theorem mem_view_services (serviceFirst : Bool) {e : ServiceEntry} :
    e ∈ (m.view serviceFirst self).services ↔
      ∃ t agg, (m.aggregated self).find? t = some agg ∧ serviceEntry t agg = some e := by
  simp only [view, sections, List.mem_filterMap, Prod.exists, mem_inNameOrder, aggregated]

theorem mem_view_edges (serviceFirst : Bool) {e : Edge} :
    e ∈ (m.view serviceFirst self).edges ↔
      ∃ t agg, (m.aggregated self).find? t = some agg ∧ e ∈ topicEdges t agg := by
  simp only [view, sections, SortBy.mem_toSet, List.mem_flatMap, Prod.exists, mem_inNameOrder, aggregated]

end Monitor

end Rcllite
