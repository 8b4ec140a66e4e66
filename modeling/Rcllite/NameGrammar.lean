import Rcllite.NodeIdentity

/-! The grammar of ROS names, against what `names.cpp` lets through. The comment on `validate_fqn` states
the grammar; the functions check its slashes, each a part of them, and none of its characters. -/
namespace Rcllite
open Utf8 (literal)

/-- `[A-Za-z0-9_]` -/
def NameChar (c : UInt8) : Prop :=
  (0x41 ≤ c ∧ c ≤ 0x5a) ∨ (0x61 ≤ c ∧ c ≤ 0x7a) ∨ (0x30 ≤ c ∧ c ≤ 0x39) ∨ c = 0x5f

instance (c : UInt8) : Decidable (NameChar c) := inferInstanceAs (Decidable (_ ∨ _))

def RosToken (t : List UInt8) : Prop := t ≠ [] ∧ ∀ c ∈ t, NameChar c

instance (t : List UInt8) : Decidable (RosToken t) :=
  have : Decidable (∀ c ∈ t, NameChar c) := List.decidableBAll NameChar t
  inferInstanceAs (Decidable (_ ∧ _))

/-- One or more tokens, each with a slash before it. -/
def RosName (name : List UInt8) : Prop :=
  ∃ tokens, tokens ≠ [] ∧ (∀ t ∈ tokens, RosToken t) ∧ name = Tokens.join 0x2f tokens

/-- Every byte of it is a slash or a name character. -/
def Spelled (name : List UInt8) : Prop := ∀ c ∈ name, c = 0x2f ∨ NameChar c

instance (name : List UInt8) : Decidable (Spelled name) :=
  List.decidableBAll (fun c => c = 0x2f ∨ NameChar c) name

theorem slash_not_nameChar : ¬ NameChar 0x2f := by decide

theorem RosToken.no_slash {t : List UInt8} (h : RosToken t) : 0x2f ∉ t :=
  fun hmem => slash_not_nameChar (h.2 _ hmem)

/-- The grammar is the slashes and the characters. -/
theorem rosName_iff {name : List UInt8} : RosName name ↔ Tokens.Separated 0x2f name ∧ Spelled name := by
  constructor
  · rintro ⟨tokens, hne, hall, rfl⟩
    refine ⟨Tokens.separated_join hne (fun t ht => ⟨(hall t ht).1, (hall t ht).no_slash⟩), ?_⟩
    intro c hc
    rcases Tokens.mem_join hc with hslash | ⟨t, ht, hc⟩
    · exact .inl hslash
    · exact .inr ((hall t ht).2 c hc)
  · rintro ⟨hsep, hspelled⟩
    obtain ⟨tokens, hne, hall, rfl⟩ := hsep.exists_tokens
    refine ⟨tokens, hne, fun t ht => ⟨(hall t ht).1, ?_⟩, rfl⟩
    intro c hc
    have hmem : c ∈ Tokens.join 0x2f tokens := List.mem_flatMap.mpr ⟨t, ht, List.mem_cons_of_mem _ hc⟩
    rcases hspelled c hmem with rfl | hchar
    · exact absurd hc (hall t ht).2
    · exact hchar

/-- What `validate_fqn` leaves open: the slash alone, and the characters. -/
theorem rosName_of_validated {f : List UInt8} (h : validateFqn f = .ok ()) :
    RosName f ↔ f ≠ literal "/" ∧ Spelled f := by
  have hslash : ¬ Tokens.Separated 0x2f (literal "/") := by
    intro hsep
    exact hsep.last (by decide)
  rw [rosName_iff]
  constructor
  · rintro ⟨hsep, hspelled⟩
    refine ⟨?_, hspelled⟩
    rintro rfl
    exact hslash hsep
  · rintro ⟨hne, hspelled⟩
    exact ⟨(validateFqn_ok_iff.mp h).resolve_left hne, hspelled⟩

section Nodes

/-- What is asked of the full name of a node: it is of the grammar, and `validate_fqn` accepts it, also
with a token appended, as the names of its parameter services are made. -/
structure WellNamed (fq : List UInt8) : Prop where
  grammar : RosName fq
  accepted : validateFqn fq = .ok ()
  extended : ∀ token, RosToken token → validateFqn (fq ++ literal "/" ++ token) = .ok ()

/-- The part of the grammar that `make_fq_node_name` does not check. -/
structure PlainNames (ns name : List UInt8) : Prop where
  spelled : Spelled ns
  adjacent : ¬ [0x2f, 0x2f] <:+: ns
  token : ∀ c ∈ name, NameChar c

theorem wellNamed_iff {fq : List UInt8} : WellNamed fq ↔ RosName fq := by
  refine ⟨fun h => h.grammar, fun h => ?_⟩
  have hsep := (rosName_iff.mp h).1
  refine ⟨h, validateFqn_ok_iff.mpr (.inr hsep), fun token htoken => ?_⟩
  rw [slash_literal, List.append_assoc, List.singleton_append]
  exact validateFqn_ok_iff.mpr (.inr (hsep.snoc htoken.1 htoken.no_slash))

theorem spelled_append {a b : List UInt8} : Spelled (a ++ b) ↔ Spelled a ∧ Spelled b := List.forall_mem_append

theorem spelled_slash : Spelled (literal "/") := by decide

theorem spelled_fqNodeName {ns name : List UInt8} : Spelled (fqNodeName ns name) ↔ Spelled ns ∧ Spelled name := by
  unfold fqNodeName
  split_ifs with h
  · rw [h, spelled_append]
  · rw [spelled_append, spelled_append]
    exact ⟨fun hs => ⟨hs.1.1, hs.2⟩, fun hs => ⟨⟨hs.1, spelled_slash⟩, hs.2⟩⟩

/-- The slashes of a full name are in order exactly when those of the namespace are. -/
theorem separated_fqNodeName {ns name : List UInt8} (h : AcceptedName ns name) :
    Tokens.Separated 0x2f (fqNodeName ns name) ↔ ¬ [0x2f, 0x2f] <:+: ns := by
  unfold fqNodeName
  rw [slash_literal]
  split_ifs with hroot
  · have hjoin : Tokens.Separated 0x2f (Tokens.join 0x2f [name]) :=
      Tokens.separated_join (List.cons_ne_nil _ _) (List.forall_mem_singleton.mpr ⟨h.name_ne, h.no_slash⟩)
    rw [Tokens.join, List.flatMap_singleton] at hjoin
    rw [hroot]
    exact ⟨fun _ => by decide, fun _ => hjoin⟩
  · rw [List.append_assoc, List.singleton_append]
    constructor
    · intro hsep hpair
      exact hsep.adjacent (hpair.trans (List.prefix_append _ _).isInfix)
    · intro hadjacent
      have hlen : 1 < ns.length := by
        obtain ⟨rest, rfl⟩ := List.head?_eq_some_iff.mp h.head
        have hrest : rest ≠ [] := fun hnil => hroot (by rw [hnil])
        have := List.length_pos_iff.mpr hrest
        rw [List.length_cons]
        omega
      exact Tokens.Separated.snoc ⟨h.head, h.last hlen, hadjacent⟩ h.name_ne h.no_slash

theorem wellNamed_fqNodeName {ns name : List UInt8} (h : AcceptedName ns name) :
    WellNamed (fqNodeName ns name) ↔ PlainNames ns name := by
  rw [wellNamed_iff, rosName_iff, separated_fqNodeName h, spelled_fqNodeName]
  constructor
  · rintro ⟨hadjacent, hns, hname⟩
    refine ⟨hns, hadjacent, fun c hc => (hname c hc).resolve_left ?_⟩
    rintro rfl
    exact h.no_slash hc
  · rintro ⟨hns, hadjacent, hname⟩
    exact ⟨hadjacent, hns, fun c hc => .inr (hname c hc)⟩

theorem wellNamed_of_makeFqNodeName {ns name fq : List UInt8} (h : makeFqNodeName ns name = .ok fq) :
    WellNamed fq ↔ PlainNames ns name := by
  have hacc := accepted_of_makeFqNodeName h
  rw [makeFqNodeName_accepted hacc, Except.ok.injEq] at h
  rw [← h, wellNamed_fqNodeName hacc]

/-- The empty namespace stands for the root. -/
theorem wellNamed_of_nodeNames {name namespace_ ns fq : List UInt8}
    (h : nodeNames name namespace_ = .ok (ns, fq)) : WellNamed fq ↔ PlainNames namespace_ name := by
  obtain ⟨rfl, hfq⟩ := nodeNames_ok h
  rw [wellNamed_of_makeFqNodeName hfq]
  split_ifs with hroot
  · subst hroot
    exact ⟨fun hp => ⟨nofun, by decide, hp.token⟩, fun hp => ⟨spelled_slash, by decide, hp.token⟩⟩
  · exact Iff.rfl

end Nodes

section Topics

/-- The part of the grammar that neither `expand_topic_name` nor `validate_fqn` checks. -/
structure PlainTopic (topic ns : List UInt8) : Prop where
  ne_slash : topic ≠ literal "/"
  spelled : Spelled topic
  namespace_ : topic.head? ≠ some 0x2f → Spelled ns

/-- An absolute topic stays as it is; a relative one is put behind the namespace like the name of a node. -/
theorem expandTopicName_ok {topic ns f : List UInt8} (hns : ns ≠ []) (h : expandTopicName topic ns = .ok f) :
    topic ≠ [] ∧ ((topic.head? = some 0x2f ∧ f = topic) ∨ (topic.head? ≠ some 0x2f ∧ f = fqNodeName ns topic)) := by
  unfold expandTopicName at h
  unfold fqNodeName
  split_ifs at h with hnil habs hsub hroot
  · exact ⟨hnil, .inl ⟨habs, (Except.ok.inj h).symm⟩⟩
  · rw [if_pos (hroot.resolve_right hns)]
    exact ⟨hnil, .inr ⟨habs, (Except.ok.inj h).symm⟩⟩
  · rw [if_neg (fun hslash => hroot (.inl hslash))]
    exact ⟨hnil, .inr ⟨habs, (Except.ok.inj h).symm⟩⟩

theorem rosName_of_expanded {topic ns f : List UInt8} (hns : ns ≠ []) (h : expandTopicName topic ns = .ok f)
    (hvalid : validateFqn f = .ok ()) : RosName f ↔ PlainTopic topic ns := by
  rw [rosName_of_validated hvalid]
  obtain ⟨hne, ⟨habs, rfl⟩ | ⟨hrel, rfl⟩⟩ := expandTopicName_ok hns h
  · exact ⟨fun hf => ⟨hf.1, hf.2, fun hrel => absurd habs hrel⟩, fun hf => ⟨hf.ne_slash, hf.spelled⟩⟩
  · have hlong : fqNodeName ns topic ≠ literal "/" := by
      intro heq
      have hlen := congrArg List.length heq
      have hpos := List.length_pos_iff.mpr hne
      have hns := List.length_pos_iff.mpr hns
      unfold fqNodeName at hlen
      split_ifs at hlen
      all_goals
        simp only [List.length_append, slash_literal, List.length_singleton] at hlen
        omega
    rw [spelled_fqNodeName]
    constructor
    · rintro ⟨-, hspelled, htopic⟩
      refine ⟨?_, htopic, fun _ => hspelled⟩
      rintro rfl
      exact hrel (by decide)
    · intro hplain
      exact ⟨hlong, hplain.namespace_ hrel, hplain.spelled⟩

end Topics

/-- What is accepted is of the grammar exactly where the inputs are plain: for the names of nodes, and for
every topic or service name that is expanded and then mapped. -/
theorem accepted_names_of_grammar_iff (ns name topic : List UInt8) :
    (∀ fq, makeFqNodeName ns name = .ok fq → (WellNamed fq ↔ PlainNames ns name)) ∧
    (∀ ns' fq, nodeNames name ns = .ok (ns', fq) → (WellNamed fq ↔ PlainNames ns name)) ∧
    ((∃ name' fq, makeFqNodeName ns name' = .ok fq) → ∀ f, expandTopicName topic ns = .ok f →
      ∀ map ∈ [rosToDdsTopicName, rosToDdsRequestTopicName, rosToDdsReplyTopicName], ∀ d, map f = .ok d →
        (RosName f ↔ PlainTopic topic ns)) := by
  refine ⟨fun fq h => wellNamed_of_makeFqNodeName h, fun ns' fq h => wellNamed_of_nodeNames h, ?_⟩
  rintro ⟨name', fq, hfq⟩ f hexpand map hmap d hd
  have hns : ns ≠ [] := by
    rintro rfl
    cases (accepted_of_makeFqNodeName hfq).head
  have hvalid : validateFqn f = .ok () := by
    simp only [List.mem_cons, List.not_mem_nil, or_false] at hmap
    rcases hmap with rfl | rfl | rfl
    · exact (rosToDdsTopicName_ok_iff.mp hd).1
    · exact (rosToDdsRequestTopicName_ok_iff.mp hd).1
    · exact (rosToDdsReplyTopicName_ok_iff.mp hd).1
  exact rosName_of_expanded hns hexpand hvalid

theorem accepted_names_of_grammar_iff_talker :
    WellNamed (literal "/robot/talker") ∧ RosName (literal "/robot/chatter") := by
  have htoken : RosToken (literal "talker") := by decide
  have hnode : makeFqNodeName (literal "/robot") (literal "talker") = .ok (literal "/robot/talker") := by decide
  obtain ⟨hnamed, -, htopic⟩ :=
    accepted_names_of_grammar_iff (literal "/robot") (literal "talker") (literal "chatter")
  refine ⟨(hnamed _ hnode).mpr ⟨by decide, by decide, htoken.2⟩, ?_⟩
  exact (htopic ⟨_, _, hnode⟩ _ (by decide) rosToDdsTopicName List.mem_cons_self (literal "rt/robot/chatter")
    (by decide)).mpr ⟨by decide, by decide, fun _ => by decide⟩

/-- An empty token in the namespace gives a node whose own name `validate_fqn` refuses; a blank in a name and
the slash alone get through everywhere. -/
theorem accepted_names_off_grammar :
    (makeFqNodeName (literal "/a//b") (literal "n") = .ok (literal "/a//b/n") ∧
      validateFqn (literal "/a//b/n") ≠ .ok () ∧ ¬ WellNamed (literal "/a//b/n")) ∧
    (makeFqNodeName (literal "/") (literal "my node") = .ok (literal "/my node") ∧
      ¬ WellNamed (literal "/my node")) ∧
    (expandTopicName (literal "/") (literal "/") = .ok (literal "/") ∧
      rosToDdsTopicName (literal "/") = .ok (literal "rt/") ∧ ¬ RosName (literal "/")) := by
  refine ⟨⟨by decide, by decide, ?_⟩, ⟨by decide, ?_⟩, by decide, by decide, ?_⟩
  · intro h
    exact absurd h.accepted (by decide)
  · intro h
    exact absurd (rosName_iff.mp h.grammar).2 (by decide)
  · intro h
    exact (rosName_iff.mp h).1.last (by decide)

end Rcllite
