import Rcllite.SnapshotExact

/-! The names of DDS topics, made in `names.cpp` and read back by the monitor: the three kinds never meet, and
an endpoint shows in the section of its kind under the name it was made from, and nowhere else. -/
namespace Rcllite
open Utf8 (literal)

section Encoding

/-- A validated name other than the slash alone. -/
theorem exists_path {f : List UInt8} (h : validateFqn f = .ok ()) (hne : f ≠ literal "/") :
    ∃ x, x ≠ [] ∧ f = literal "/" ++ x := by
  have hsep := (validateFqn_ok_iff.mp h).resolve_left hne
  obtain ⟨x, rfl⟩ := List.head?_eq_some_iff.mp hsep.head
  refine ⟨x, ?_, by rw [slash_literal, List.singleton_append]⟩
  rintro rfl
  exact hne (by decide)

theorem topic_path (x : List UInt8) : literal "rt" ++ (literal "/" ++ x) = literal "rt/" ++ x := by
  rw [← List.append_assoc]
  rfl

theorem request_path (x : List UInt8) : literal "rq" ++ (literal "/" ++ x) = literal "rq/" ++ x := by
  rw [← List.append_assoc]
  rfl

/-- The marks differ in their second byte. -/
theorem topic_ne_request_mark {a b : List UInt8} : literal "rt" ++ a ≠ literal "rq" ++ b := by
  intro h
  cases List.append_inj_left h rfl

theorem topic_ne_reply_mark {a b : List UInt8} : literal "rt" ++ a ≠ literal "rr" ++ b := by
  intro h
  cases List.append_inj_left h rfl

theorem request_ne_reply_mark {a b : List UInt8} : literal "rq" ++ a ≠ literal "rr" ++ b := by
  intro h
  cases List.append_inj_left h rfl

end Encoding

section Decoding
variable {t f : List UInt8} {agg : TopicAgg}

/-- A topic is listed under the name its DDS topic was made from. -/
theorem topicEntry_decodes {e : TopicEntry} (h : topicEntry t agg = some e) : t = literal "rt" ++ e.topic := by
  obtain ⟨-, x, -, rfl, rfl⟩ := topicEntry_eq_some.mp h
  exact (topic_path x).symm

theorem serviceEntry_decodes {e : ServiceEntry} (h : serviceEntry t agg = some e) :
    t = literal "rq" ++ e.service ++ literal "Request" := by
  obtain ⟨x, -, rfl, rfl⟩ := serviceEntry_eq_some.mp h
  rw [request_path]

theorem isPlumbingTopic_mark (f : List UInt8) :
    isPlumbingTopic (literal "rt" ++ f) = true ↔ f = literal "/rosout" ∨ f = literal "/parameter_events" := by
  have hmark : literal "rt" = [0x72, 0x74] := by decide
  have hinfo : literal "rt" ++ f ≠ literal "ros_discovery_info" := by
    intro h
    cases List.append_inj_left (h.trans (by decide : _ = literal "ro" ++ literal "s_discovery_info")) rfl
  have hrosout : literal "rt/rosout" = literal "rt" ++ literal "/rosout" := by decide
  have hevents : literal "rt/parameter_events" = literal "rt" ++ literal "/parameter_events" := by decide
  have hdcps : (literal "DCPS").isPrefixOf (literal "rt" ++ f) = false := by
    rw [hmark]
    rfl
  have hd : (literal "d*").isPrefixOf (literal "rt" ++ f) = false := by
    rw [hmark]
    rfl
  unfold isPlumbingTopic
  rw [hdcps, hd, hrosout, hevents]
  simp only [Bool.or_false, Bool.or_eq_true, decide_eq_true_eq, hinfo, false_or, List.append_cancel_left_eq]

end Decoding

section Aggregation

/-- What is aggregated for a topic depends on its own endpoints only. -/
theorem find?_aggregate (live : List LiveEndpoint) (t : List UInt8) :
    (live.foldl addEndpoint .empty).find? t =
      ((live.filter (fun e => e.info.topic = t)).foldl addEndpoint .empty).find? t := by
  induction live using List.reverseRecOn with
  | nil => rfl
  | append_singleton live x ih =>
    rw [List.foldl_append, List.foldl_cons, List.foldl_nil, List.filter_append, List.filter_singleton, addEndpoint]
    by_cases h : x.info.topic = t
    · subst h
      rw [AssocMap.find?_insert_self, decide_eq_true rfl, Bool.cond_true, List.foldl_append, List.foldl_cons,
        List.foldl_nil, addEndpoint, AssocMap.find?_insert_self, ih]
    · rw [AssocMap.find?_insert_ne _ _ (Ne.symm h), decide_eq_false h, Bool.cond_false, List.append_nil, ih]

/-- Two aggregations that agree but for one topic list the same, as far as that topic is not asked for. -/
theorem filterMap_inNameOrder_congr {β : Type} {a b : AssocMap (List UInt8) TopicAgg} {t : List UInt8}
    (h : ∀ u, u ≠ t → a.find? u = b.find? u) (entry : List UInt8 → TopicAgg → Option β)
    (ht : ∀ agg, entry t agg = none) :
    (inNameOrder a).filterMap (fun x => entry x.1 x.2) = (inNameOrder b).filterMap (fun x => entry x.1 x.2) := by
  have hskip : ∀ l : List (List UInt8 × TopicAgg), l.filterMap (fun x => entry x.1 x.2) =
      (l.filter (fun x => x.1 ≠ t)).filterMap (fun x => entry x.1 x.2) := by
    intro l
    rw [List.filterMap_filter]
    apply List.filterMap_congr
    rintro ⟨u, agg⟩ -
    by_cases hu : u = t
    · subst hu
      simp [ht agg]
    · simp [hu]
  have hlist : (inNameOrder a).filter (fun x => x.1 ≠ t) = (inNameOrder b).filter (fun x => x.1 ≠ t) :=
    inNameOrder_filter_congr (fun u agg hu => by rw [h u (of_decide_eq_true hu)])
  rw [hskip, hskip (inNameOrder b), hlist]

end Aggregation

namespace Monitor

/-- The same graph, but for one endpoint. -/
def without (m : GraphState) (g : Guid) : GraphState := { m with endpoints := m.endpoints.erase g }

variable {self g : Guid} {m : GraphState} {info : EndpointInfo}

theorem attributed_without : (m.without g).attributed self = (m.attributed self).filter (fun e => e.guid ≠ g) := by
  have hkept : (inGuidOrder (m.endpoints.erase g)).filter (fun e => e.1 ≠ g) = inGuidOrder (m.endpoints.erase g) := by
    apply List.filter_eq_self.mpr
    rintro ⟨k, a⟩ hmem
    rw [mem_inGuidOrder] at hmem
    refine decide_eq_true (fun hk : k = g => ?_)
    rw [hk, AssocMap.find?_erase_self] at hmem
    cases hmem
  have hlist : inGuidOrder (m.endpoints.erase g) = (inGuidOrder m.endpoints).filter (fun e => e.1 ≠ g) := by
    rw [← hkept]
    apply inGuidOrder_filter_congr
    intro k a hk
    rw [AssocMap.find?_erase_ne _ (of_decide_eq_true hk)]
  unfold attributed
  rw [List.filter_map]
  change List.map m.ascribe (List.filter _ (inGuidOrder (m.endpoints.erase g))) = _
  rw [hlist, List.filter_comm]
  rfl

theorem aggregated_without (hfind : m.endpoints.find? g = some info) {u : List UInt8} (hu : u ≠ info.topic) :
    ((m.without g).aggregated self).find? u = (m.aggregated self).find? u := by
  unfold aggregated
  rw [find?_aggregate, find?_aggregate (m.attributed self), attributed_without, List.filter_filter]
  congr 2
  apply List.filter_congr
  intro e he
  obtain ⟨k, info', hfind', -, rfl⟩ := mem_attributed.mp he
  -- the endpoint that is gone is on another topic
  have hne : info'.topic = u → k ≠ g := by
    rintro rfl rfl
    rw [hfind, Option.some_inj] at hfind'
    exact hu (hfind' ▸ rfl)
  by_cases htopic : info'.topic = u
  · simp [ascribe, htopic, hne htopic]
  · simp [ascribe, htopic]

/-- In a section that has at most one entry for each DDS topic, an endpoint shows only in those its own topic
gives. -/
theorem section_without {β : Type} (self : Guid) (hfind : m.endpoints.find? g = some info)
    (entry : List UInt8 → TopicAgg → Option β) (P : β → Bool)
    (hP : ∀ agg e, entry info.topic agg = some e → P e = false) :
    ((inNameOrder ((m.without g).aggregated self)).filterMap (fun t => entry t.1 t.2)).filter P =
      ((inNameOrder (m.aggregated self)).filterMap (fun t => entry t.1 t.2)).filter P := by
  rw [List.filter_filterMap, List.filter_filterMap]
  refine filterMap_inNameOrder_congr (fun u hu => aggregated_without hfind hu) (fun t agg => (entry t agg).filter P) ?_
  intro agg
  cases hentry : entry info.topic agg with
  | none => rfl
  | some e => exact Option.filter_some_neg (by simp [hP agg e hentry])

theorem topics_without (serviceFirst : Bool) (self : Guid) (hfind : m.endpoints.find? g = some info)
    (P : TopicEntry → Bool) (hP : ∀ agg e, topicEntry info.topic agg = some e → P e = false) :
    ((m.without g).view serviceFirst self).topics.filter P = (m.view serviceFirst self).topics.filter P :=
  section_without self hfind topicEntry P hP

theorem services_without (serviceFirst : Bool) (self : Guid) (hfind : m.endpoints.find? g = some info)
    (P : ServiceEntry → Bool) (hP : ∀ agg e, serviceEntry info.topic agg = some e → P e = false) :
    ((m.without g).view serviceFirst self).services.filter P = (m.view serviceFirst self).services.filter P :=
  section_without self hfind serviceEntry P hP

/-- The topic `f` has one entry, and it lists `n` on one of its sides. -/
def TopicListed (s : Snapshot) (f : List UInt8) (writer : Bool) (n : List UInt8) : Prop :=
  ∃ e ∈ s.topics, e.topic = f ∧ n ∈ (if writer then e.publishers else e.subscriptions) ∧
    ∀ e' ∈ s.topics, e'.topic = f → e' = e

/-- The service `f` has one entry, and it lists `n` on one of its sides. -/
def ServiceListed (s : Snapshot) (f : List UInt8) (writer : Bool) (n : List UInt8) : Prop :=
  ∃ e ∈ s.services, e.service = f ∧ n ∈ (if writer then e.clients else e.servers) ∧
    ∀ e' ∈ s.services, e'.service = f → e' = e

/-- The node of an endpoint is aggregated on the side of the endpoint. -/
theorem exists_aggregate (hfind : m.endpoints.find? g = some info) (hp : info.participant ≠ self) :
    ∃ agg, (m.aggregated self).find? info.topic = some agg ∧
      (m.owner info.participant g).1 ∈ (if info.writer then agg.writers else agg.readers) := by
  have hspec := addEndpoint_spec (m.attributed self)
  have hmem := mem_attributed.mpr ⟨g, info, hfind, hp, rfl⟩
  obtain ⟨agg, hagg⟩ := (hspec.1 info.topic).mpr ⟨_, hmem, rfl⟩
  obtain ⟨-, hw, hr⟩ := hspec.2 info.topic agg hagg
  refine ⟨agg, hagg, ?_⟩
  cases hwriter : info.writer with
  | true => exact (hw _).mpr ⟨_, hmem, rfl, hwriter, rfl⟩
  | false => exact (hr _).mpr ⟨_, hmem, rfl, hwriter, rfl⟩

variable {f : List UInt8}

theorem topic_listed (serviceFirst : Bool) (hfind : m.endpoints.find? g = some info)
    (hp : info.participant ≠ self) (ht : info.topic = literal "rt" ++ f) (hpath : ∃ x, x ≠ [] ∧ f = literal "/" ++ x)
    (hplumbing : ¬ (f = literal "/rosout" ∨ f = literal "/parameter_events")) :
    TopicListed (m.view serviceFirst self) f info.writer (m.owner info.participant g).1 := by
  obtain ⟨agg, hagg, hside⟩ := exists_aggregate hfind hp
  obtain ⟨x, hx, rfl⟩ := hpath
  have hentry : topicEntry info.topic agg =
      some ⟨literal "/" ++ x, agg.type, inOrder agg.writers, inOrder agg.readers⟩ := by
    rw [← isPlumbingTopic_mark, ← ht, Bool.not_eq_true] at hplumbing
    exact topicEntry_eq_some.mpr ⟨hplumbing, x, hx, ht.trans (topic_path x), rfl⟩
  refine ⟨_, (mem_view_topics serviceFirst).mpr ⟨_, agg, hagg, hentry⟩, rfl, ?_, ?_⟩
  · split_ifs at hside ⊢
    · exact mem_inOrder.mpr hside
    · exact mem_inOrder.mpr hside
  · intro e' he' hname
    obtain ⟨t', agg', hagg', hentry'⟩ := (mem_view_topics serviceFirst).mp he'
    -- the name gives the DDS topic back
    obtain rfl : t' = info.topic := (topicEntry_decodes hentry').trans (hname ▸ ht.symm)
    rw [hagg, Option.some_inj] at hagg'
    rw [← hagg', hentry, Option.some_inj] at hentry'
    exact hentry'.symm

theorem service_listed (serviceFirst : Bool) (hfind : m.endpoints.find? g = some info)
    (hp : info.participant ≠ self) (ht : info.topic = literal "rq" ++ f ++ literal "Request")
    (hpath : ∃ x, x ≠ [] ∧ f = literal "/" ++ x) :
    ServiceListed (m.view serviceFirst self) f info.writer (m.owner info.participant g).1 := by
  obtain ⟨agg, hagg, hside⟩ := exists_aggregate hfind hp
  obtain ⟨x, hx, rfl⟩ := hpath
  have hentry : serviceEntry info.topic agg =
      some ⟨literal "/" ++ x, agg.type, inOrder agg.readers, inOrder agg.writers⟩ := by
    rw [request_path] at ht
    exact serviceEntry_eq_some.mpr ⟨x, hx, ht, rfl⟩
  refine ⟨_, (mem_view_services serviceFirst).mpr ⟨_, agg, hagg, hentry⟩, rfl, ?_, ?_⟩
  · split_ifs at hside ⊢
    · exact mem_inOrder.mpr hside
    · exact mem_inOrder.mpr hside
  · intro e' he' hname
    obtain ⟨t', agg', hagg', hentry'⟩ := (mem_view_services serviceFirst).mp he'
    obtain rfl : t' = info.topic := (serviceEntry_decodes hentry').trans (hname ▸ ht.symm)
    rw [hagg, Option.some_inj] at hagg'
    rw [← hagg', hentry, Option.some_inj] at hentry'
    exact hentry'.symm

/-- An endpoint whose DDS topic has another mark does not show among the topics. -/
theorem topics_unchanged (serviceFirst : Bool) (hfind : m.endpoints.find? g = some info)
    (hmark : ∀ x, info.topic ≠ literal "rt" ++ x) :
    ((m.without g).view serviceFirst self).topics = (m.view serviceFirst self).topics := by
  have hall := topics_without serviceFirst self hfind (fun _ => true)
    (fun agg e he => absurd (topicEntry_decodes he) (hmark _))
  rwa [List.filter_true, List.filter_true] at hall

theorem services_unchanged (serviceFirst : Bool) (hfind : m.endpoints.find? g = some info)
    (hmark : ∀ x, info.topic ≠ literal "rq" ++ x) :
    ((m.without g).view serviceFirst self).services = (m.view serviceFirst self).services := by
  have hall := services_without serviceFirst self hfind (fun _ => true)
    (fun agg e he => absurd ((serviceEntry_decodes he).trans (List.append_assoc _ _ _)) (hmark _))
  rwa [List.filter_true, List.filter_true] at hall

end Monitor

namespace Monitor
variable {serviceFirst : Bool} {self g : Guid} {m : GraphState} {info : EndpointInfo} {f : List UInt8}

theorem topic_endpoint_shown (hfind : m.endpoints.find? g = some info) (hp : info.participant ≠ self)
    (hne : f ≠ literal "/") (hmap : rosToDdsTopicName f = .ok info.topic) :
    (f ≠ literal "/rosout" → f ≠ literal "/parameter_events" →
      TopicListed (m.view serviceFirst self) f info.writer (m.owner info.participant g).1) ∧
    ((m.without g).view serviceFirst self).topics.filter (fun e => e.topic ≠ f) =
      (m.view serviceFirst self).topics.filter (fun e => e.topic ≠ f) ∧
    ((m.without g).view serviceFirst self).services = (m.view serviceFirst self).services := by
  obtain ⟨hf, ht⟩ := rosToDdsTopicName_ok_iff.mp hmap
  refine ⟨fun hlog hevents => ?_, ?_, ?_⟩
  · exact topic_listed serviceFirst hfind hp ht (exists_path hf hne) (not_or.mpr ⟨hlog, hevents⟩)
  · refine topics_without serviceFirst self hfind _ (fun agg e he => ?_)
    simpa using (List.append_cancel_left (ht.symm.trans (topicEntry_decodes he))).symm
  · exact services_unchanged serviceFirst hfind (fun x hx => topic_ne_request_mark (ht.symm.trans hx))

theorem request_endpoint_shown (hfind : m.endpoints.find? g = some info) (hp : info.participant ≠ self)
    (hne : f ≠ literal "/") (hmap : rosToDdsRequestTopicName f = .ok info.topic) :
    ServiceListed (m.view serviceFirst self) f info.writer (m.owner info.participant g).1 ∧
    ((m.without g).view serviceFirst self).services.filter (fun e => e.service ≠ f) =
      (m.view serviceFirst self).services.filter (fun e => e.service ≠ f) ∧
    ((m.without g).view serviceFirst self).topics = (m.view serviceFirst self).topics := by
  obtain ⟨hf, ht⟩ := rosToDdsRequestTopicName_ok_iff.mp hmap
  refine ⟨service_listed serviceFirst hfind hp ht (exists_path hf hne), ?_, ?_⟩
  · refine services_without serviceFirst self hfind _ (fun agg e he => ?_)
    have hname := ht.symm.trans (serviceEntry_decodes he)
    simpa using (List.append_cancel_left (List.append_cancel_right hname)).symm
  · rw [List.append_assoc] at ht
    exact topics_unchanged serviceFirst hfind (fun x hx => topic_ne_request_mark (hx.symm.trans ht))

theorem reply_endpoint_hidden (hfind : m.endpoints.find? g = some info)
    (hmap : rosToDdsReplyTopicName f = .ok info.topic) :
    ((m.without g).view serviceFirst self).topics = (m.view serviceFirst self).topics ∧
    ((m.without g).view serviceFirst self).services = (m.view serviceFirst self).services := by
  have ht := (rosToDdsReplyTopicName_ok_iff.mp hmap).2
  rw [List.append_assoc] at ht
  exact ⟨topics_unchanged serviceFirst hfind (fun x hx => topic_ne_reply_mark (hx.symm.trans ht)),
    services_unchanged serviceFirst hfind (fun x hx => request_ne_reply_mark (hx.symm.trans ht))⟩

end Monitor

/-- The three mappings are injective and never meet; and whenever `snapshot_json` returns, an endpoint of
another participant on one of these names is listed under the name it was made from, in the section of its
kind, and removing it changes nothing else in the two sections. -/
theorem name_decoding_inverts_mapping :
    (∀ f g, validateFqn f = .ok () → validateFqn g = .ok () → f ≠ literal "/" → g ≠ literal "/" →
      (rosToDdsTopicName f = rosToDdsTopicName g → f = g) ∧
      (rosToDdsRequestTopicName f = rosToDdsRequestTopicName g → f = g) ∧
      (rosToDdsReplyTopicName f = rosToDdsReplyTopicName g → f = g) ∧
      rosToDdsTopicName f ≠ rosToDdsRequestTopicName g ∧ rosToDdsTopicName f ≠ rosToDdsReplyTopicName g ∧
      rosToDdsRequestTopicName f ≠ rosToDdsReplyTopicName g) ∧
    ∀ serviceFirst self (m : GraphState) b, m.snapshotJson serviceFirst self = .ok b →
      ∃ s, m.snapshot serviceFirst self = .ok s ∧ b = s.dump ∧
        ∀ f g info, validateFqn f = .ok () → f ≠ literal "/" → m.endpoints.find? g = some info →
          info.participant ≠ self →
          ∃ n source s', m.resolveNode info.participant g = .ok (n, source) ∧
            (m.without g).snapshot serviceFirst self = .ok s' ∧
            (rosToDdsTopicName f = .ok info.topic →
              (f ≠ literal "/rosout" → f ≠ literal "/parameter_events" → Monitor.TopicListed s f info.writer n) ∧
              s'.topics.filter (fun e => e.topic ≠ f) = s.topics.filter (fun e => e.topic ≠ f) ∧
              s'.services = s.services) ∧
            (rosToDdsRequestTopicName f = .ok info.topic →
              Monitor.ServiceListed s f info.writer n ∧
              s'.services.filter (fun e => e.service ≠ f) = s.services.filter (fun e => e.service ≠ f) ∧
              s'.topics = s.topics) ∧
            (rosToDdsReplyTopicName f = .ok info.topic → s'.topics = s.topics ∧ s'.services = s.services) := by
  constructor
  · intro f g hf hg _ _
    have hrt : ∀ {f}, validateFqn f = .ok () → rosToDdsTopicName f = .ok (literal "rt" ++ f) :=
      fun h => rosToDdsTopicName_ok_iff.mpr ⟨h, rfl⟩
    have hrq : ∀ {f}, validateFqn f = .ok () →
        rosToDdsRequestTopicName f = .ok (literal "rq" ++ f ++ literal "Request") :=
      fun h => rosToDdsRequestTopicName_ok_iff.mpr ⟨h, rfl⟩
    have hrr : ∀ {f}, validateFqn f = .ok () →
        rosToDdsReplyTopicName f = .ok (literal "rr" ++ f ++ literal "Reply") :=
      fun h => rosToDdsReplyTopicName_ok_iff.mpr ⟨h, rfl⟩
    simp only [hrt hf, hrt hg, hrq hf, hrq hg, hrr hf, hrr hg, Ne, Except.ok.injEq, List.append_assoc,
      List.append_cancel_left_eq, List.append_cancel_right_eq, imp_self, true_and]
    exact ⟨topic_ne_request_mark, topic_ne_reply_mark, request_ne_reply_mark⟩
  · intro serviceFirst self m b hb
    obtain ⟨s, hs, rfl⟩ := Monitor.snapshotJson_ok hb
    obtain ⟨hacc, rfl⟩ := (Monitor.snapshot_ok_iff serviceFirst s).mp hs
    refine ⟨_, hs, rfl, ?_⟩
    intro f g info hf hne hfind hp
    -- without the endpoint every announced name is still accepted
    have hless : (m.without g).snapshot serviceFirst self = .ok ((m.without g).view serviceFirst self) :=
      (Monitor.snapshot_ok_iff serviceFirst _).mpr ⟨hacc, rfl⟩
    exact ⟨_, _, _, Monitor.resolveNode_eq hacc hp g, hless, Monitor.topic_endpoint_shown hfind hp hne,
      Monitor.request_endpoint_shown hfind hp hne, Monitor.reply_endpoint_hidden hfind⟩

theorem name_decoding_inverts_mapping_chatter :
    rosToDdsTopicName (literal "/Request") ≠ rosToDdsRequestTopicName (literal "/t") ∧
      ∃ s, (Monitor.chatter (literal "rt/chatter")).snapshot true (List.Vector.replicate 16 0) = .ok s ∧
        Monitor.TopicListed s (literal "/chatter") true (literal "/talker") := by
  obtain ⟨hnames, hlists⟩ := name_decoding_inverts_mapping
  have hmeet := hnames (literal "/Request") (literal "/t") (by decide) (by decide) (by decide) (by decide)
  refine ⟨hmeet.2.2.2.1, ?_⟩
  obtain ⟨b, hb⟩ := Monitor.chatter_snapshotJson (literal "rt/chatter")
  obtain ⟨s, hs, -, hlisted⟩ := hlists true (List.Vector.replicate 16 0) _ b hb
  have hself : (List.Vector.replicate 16 1 : Guid) ≠ List.Vector.replicate 16 0 := by decide
  obtain ⟨n, source, s', hown, -, htopic, -⟩ := hlisted (literal "/chatter") (List.Vector.replicate 16 3)
    ⟨List.Vector.replicate 16 1, literal "rt/chatter", literal "String_", true⟩ (by decide) (by decide) rfl hself
  obtain rfl : n = literal "/talker" := congrArg Prod.fst (Except.ok.inj hown).symm
  exact ⟨s, hs, (htopic (by decide)).1 (by decide) (by decide)⟩

end Rcllite
