import Rcllite.Lib.Utf8
import Rcllite.Lib.Tokens

/-! `names.cpp`: fully qualified names, the DDS names they are mapped to, and type names. -/
namespace Rcllite
open Utf8 (literal)

/-- `make_fq_node_name`, with the text of its error. -/
def makeFqNodeName (ns name : List UInt8) : Except (List UInt8) (List UInt8) :=
  if name = [] ∨ 0x2f ∈ name then .error (literal "invalid node name: " ++ name)
  else if ns = [] ∨ ns.head? ≠ some 0x2f ∨ (1 < ns.length ∧ ns.getLast? = some 0x2f) then
    .error (literal "invalid namespace: " ++ ns)
  else if ns = literal "/" then .ok (literal "/" ++ name)
  else .ok (ns ++ literal "/" ++ name)

/-- The names `make_fq_node_name` accepts. -/
structure AcceptedName (ns name : List UInt8) : Prop where
  name_ne : name ≠ []
  no_slash : 0x2f ∉ name
  head : ns.head? = some 0x2f
  last : 1 < ns.length → ns.getLast? ≠ some 0x2f

/-- What an accepted name is put together to. -/
def fqNodeName (ns name : List UInt8) : List UInt8 :=
  if ns = literal "/" then literal "/" ++ name else ns ++ literal "/" ++ name

theorem slash_literal : literal "/" = [0x2f] := by decide

theorem makeFqNodeName_accepted {ns name : List UInt8} (h : AcceptedName ns name) :
    makeFqNodeName ns name = .ok (fqNodeName ns name) := by
  have hns : ns ≠ [] := by
    rintro rfl
    cases h.head
  have hbad : ¬ (ns = [] ∨ ns.head? ≠ some 0x2f ∨ (1 < ns.length ∧ ns.getLast? = some 0x2f)) := by
    rintro (hnil | hhead | ⟨hlen, hlast⟩)
    · exact hns hnil
    · exact hhead h.head
    · exact h.last hlen hlast
  unfold makeFqNodeName fqNodeName
  rw [if_neg (by rintro (hnil | hmem); exacts [h.name_ne hnil, h.no_slash hmem]), if_neg hbad]
  split_ifs <;> rfl

theorem accepted_of_makeFqNodeName {ns name fq : List UInt8} (h : makeFqNodeName ns name = .ok fq) :
    AcceptedName ns name := by
  unfold makeFqNodeName at h
  split_ifs at h with hname hns
  all_goals
    rw [not_or] at hname
    simp only [not_or, not_and, Decidable.not_not] at hns
    exact ⟨hname.1, hname.2, hns.2.1, hns.2.2⟩

theorem makeFqNodeName_error {ns name : List UInt8} (h : ¬ AcceptedName ns name) :
    ∃ e, makeFqNodeName ns name = .error e := by
  cases hm : makeFqNodeName ns name with
  | error e => exact ⟨e, rfl⟩
  | ok fq => exact absurd (accepted_of_makeFqNodeName hm) h

theorem utf8_fqNodeName {ns name : List UInt8} : Utf8 (fqNodeName ns name) ↔ Utf8 ns ∧ Utf8 name := by
  unfold fqNodeName
  split_ifs with h
  · rw [slash_literal, Utf8.ascii_append_iff (by decide), h, slash_literal]
    exact ⟨fun hn => ⟨Utf8.singleton (by decide), hn⟩, fun h => h.2⟩
  · rw [slash_literal, List.append_assoc, List.singleton_append]
    exact Utf8.cut_iff (by decide)

section Mapping

def validateFqn (fqn : List UInt8) : Except (List UInt8) Unit :=
  if fqn = [] ∨ fqn.head? ≠ some 0x2f then
    .error (literal "fully qualified name must start with '/': " ++ fqn)
  else if 1 < fqn.length ∧ fqn.getLast? = some 0x2f then
    .error (literal "fully qualified name must not end with '/': " ++ fqn)
  else if [0x2f, 0x2f] <:+: fqn then
    .error (literal "fully qualified name contains empty token: " ++ fqn)
  else .ok ()

def rosToDdsTopicName (rosFqn : List UInt8) : Except (List UInt8) (List UInt8) := do
  validateFqn rosFqn
  return literal "rt" ++ rosFqn

def rosToDdsRequestTopicName (rosFqn : List UInt8) : Except (List UInt8) (List UInt8) := do
  validateFqn rosFqn
  return literal "rq" ++ rosFqn ++ literal "Request"

def rosToDdsReplyTopicName (rosFqn : List UInt8) : Except (List UInt8) (List UInt8) := do
  validateFqn rosFqn
  return literal "rr" ++ rosFqn ++ literal "Reply"

def expandTopicName (topic ns : List UInt8) : Except (List UInt8) (List UInt8) :=
  if topic = [] then .error (literal "topic name must not be empty")
  else if topic.head? = some 0x2f then .ok topic
  else if 0x2f ∈ topic then
    .error (literal "relative topic with sub-namespace is not supported: " ++ topic)
  else if ns = literal "/" ∨ ns = [] then .ok (literal "/" ++ topic)
  else .ok (ns ++ literal "/" ++ topic)

/-- `dds_type_name`: the last slash and, before it, the first one. -/
def ddsTypeName (type : List UInt8) : Except (List UInt8) (List UInt8) :=
  if literal "::" <:+: type then .ok type
  else match Tokens.rfind 0x2f type with
    | none => .error (literal "type must be 'pkg/pkg/Name' or a full DDS name, got '" ++ type ++ literal "'")
    | some cut =>
      let ddsNs := type.take cut
      let ddsNs := match Tokens.find 0x2f ddsNs with
        | some slash => ddsNs.take slash ++ literal "::" ++ ddsNs.drop (slash + 1)
        | none => ddsNs
      .ok (ddsNs ++ literal "::dds_::" ++ type.drop (cut + 1) ++ literal "_")

/-- What `validate_fqn` lets through: separated tokens, and the slash alone. -/
theorem validateFqn_ok_iff {fqn : List UInt8} :
    validateFqn fqn = .ok () ↔ fqn = literal "/" ∨ Tokens.Separated 0x2f fqn := by
  unfold validateFqn
  constructor
  · intro h
    split_ifs at h with hhead hlast hadjacent
    rw [not_or, Decidable.not_not] at hhead
    by_cases hlen : 1 < fqn.length
    · exact .inr ⟨hhead.2, fun hend => hlast ⟨hlen, hend⟩, hadjacent⟩
    · left
      obtain ⟨rest, rfl⟩ := List.head?_eq_some_iff.mp hhead.2
      have hrest : rest = [] := by
        apply List.length_eq_zero_iff.mp
        rw [List.length_cons] at hlen
        omega
      rw [hrest, slash_literal]
  · rintro (rfl | h)
    · decide
    · have hne : fqn ≠ [] := by
        rintro rfl
        cases h.head
      rw [if_neg (by rintro (hnil | hhead); exacts [hne hnil, hhead h.head]), if_neg (fun hend => h.last hend.2),
        if_neg h.adjacent]

theorem mapped_ok_iff {f x d : List UInt8} :
    (do validateFqn f; return x : Except (List UInt8) (List UInt8)) = .ok d ↔ validateFqn f = .ok () ∧ d = x := by
  cases validateFqn f with
  | error e => exact ⟨nofun, nofun⟩
  | ok u => exact ⟨fun h => ⟨rfl, (Except.ok.inj h).symm⟩, fun h => congrArg Except.ok h.2.symm⟩

theorem rosToDdsTopicName_ok_iff {f d : List UInt8} :
    rosToDdsTopicName f = .ok d ↔ validateFqn f = .ok () ∧ d = literal "rt" ++ f := mapped_ok_iff

theorem rosToDdsRequestTopicName_ok_iff {f d : List UInt8} :
    rosToDdsRequestTopicName f = .ok d ↔ validateFqn f = .ok () ∧ d = literal "rq" ++ f ++ literal "Request" :=
  mapped_ok_iff

theorem rosToDdsReplyTopicName_ok_iff {f d : List UInt8} :
    rosToDdsReplyTopicName f = .ok d ↔ validateFqn f = .ok () ∧ d = literal "rr" ++ f ++ literal "Reply" :=
  mapped_ok_iff

end Mapping

end Rcllite
