import Mathlib.Data.List.TakeWhile
import Rcllite.ServiceHeader
import Rcllite.SnapshotSpec
import Rcllite.Lib.Transition

/-! How an rcllite node is seen by the monitor. Its name travels twice: whole, in the user data of its
participant, and in two parts, in its announcement; the monitor puts the parts together again and reads
the user data up to the first semicolon. -/
namespace Rcllite
open Utf8 (literal)

section Nodes

/-- The names the constructor of `rcl::Node` settles on, `ns_` and `fq_name_`. -/
def nodeNames (name namespace_ : List UInt8) : Except (List UInt8) (List UInt8 × List UInt8) := do
  let ns := if namespace_ = [] then literal "/" else namespace_
  let fqName ← makeFqNodeName ns name
  if name = [] ∨ 0x2f ∈ name then .error (literal "invalid node name: " ++ name)
  else .ok (ns, fqName)

/-- The second check of the name can no longer fail. -/
theorem nodeNames_ok {name namespace_ ns fqName : List UInt8} (h : nodeNames name namespace_ = .ok (ns, fqName)) :
    ns = (if namespace_ = [] then literal "/" else namespace_) ∧ makeFqNodeName ns name = .ok fqName := by
  unfold nodeNames at h
  generalize (if namespace_ = [] then literal "/" else namespace_) = ns' at h ⊢
  dsimp only at h
  cases hfq : makeFqNodeName ns' name with
  | error e =>
    rw [hfq] at h
    cases h
  | ok fq =>
    have hacc := accepted_of_makeFqNodeName hfq
    rw [hfq] at h
    change (if name = [] ∨ 0x2f ∈ name then _ else Except.ok (ns', fq)) = _ at h
    rw [if_neg (by rintro (hnil | hmem); exacts [hacc.name_ne hnil, hacc.no_slash hmem])] at h
    obtain ⟨rfl, rfl⟩ := Prod.mk.inj (Except.ok.inj h)
    exact ⟨rfl, hfq⟩

/-- What `dds::Participant` puts into its user data. -/
def enclaveUserData (enclave : List UInt8) : List UInt8 := literal "enclave=" ++ enclave ++ literal ";"

/-- An endpoint as its builtin topic describes it. -/
structure NodeEndpoint where
  guid : Guid
  topic : List UInt8
  type : List UInt8
  writer : Bool

/-- A live `rcl::Node`: the guid of its participant, its names, the writer it announces itself with and its
other endpoints. `unset` are the bytes that its announcement leaves uninitialized. User data is an octet
sequence, whose length has 32 bits. -/
structure RclNode where
  guid : Guid
  unset : List.Vector (BitVec 8) 8
  name : List UInt8
  namespace_ : List UInt8
  ns : List UInt8
  fqName : List UInt8
  announcer : NodeEndpoint
  others : List NodeEndpoint
  constructed : nodeNames name namespace_ = .ok (ns, fqName)
  announces : announcer.topic = literal "ros_discovery_info" ∧ announcer.writer = true
  fits : (enclaveUserData fqName).length < 2^32

namespace RclNode

def endpoints (n : RclNode) : List NodeEndpoint := n.announcer :: n.others

/-- `info.gid.data`, of which `announce_to_ros_graph` fills the first sixteen bytes. -/
def gid (n : RclNode) : Gid := ⟨n.guid.toList.map UInt8.toBitVec ++ n.unset.toList, by simp⟩

/-- The message of `announce_to_ros_graph`: one node, and no gids. -/
def announcement (n : RclNode) : participantEntitiesInfoSchema.Val :=
  ((n.gid, ()), ([(n.ns, n.name, [], [], ())] : List nodeEntitiesInfoSchema.Val), ())

def participantSample (n : RclNode) : ParticipantSample := ⟨n.guid, true, some (enclaveUserData n.fqName)⟩

def announcementPayload (n : RclNode) : List UInt8 := rawResize (participantEntitiesInfoSchema.encode n.announcement)

def endpointSample (n : RclNode) (e : NodeEndpoint) : EndpointSample := ⟨e.guid, true, n.guid, some e.topic, some e.type⟩

def endpointInfo (n : RclNode) (e : NodeEndpoint) : EndpointInfo := ⟨n.guid, e.topic, e.type, e.writer⟩

/-- What the monitor gets to see of a live node. -/
def samples (n : RclNode) : List MonitorSample :=
  .participant n.participantSample :: .discovery n.announcementPayload ::
    n.endpoints.map (fun e => .endpoint e.writer (n.endpointSample e))

theorem accepted (n : RclNode) : AcceptedName n.ns n.name ∧ n.fqName = fqNodeName n.ns n.name := by
  obtain ⟨-, hfq⟩ := nodeNames_ok n.constructed
  have hacc := accepted_of_makeFqNodeName hfq
  rw [makeFqNodeName_accepted hacc] at hfq
  exact ⟨hacc, (Except.ok.inj hfq).symm⟩

theorem fqName_head (n : RclNode) : ∃ rest, n.fqName = 0x2f :: rest := by
  obtain ⟨hacc, hfq⟩ := n.accepted
  obtain ⟨rest, hns⟩ := List.head?_eq_some_iff.mp hacc.head
  rw [hfq, fqNodeName]
  split_ifs
  · exact ⟨n.name, by rw [slash_literal]; rfl⟩
  · exact ⟨rest ++ literal "/" ++ n.name, by rw [hns]; rfl⟩

/-- The monitor reads the user data up to the first semicolon. -/
theorem parseEnclave_userData (enclave : List UInt8) :
    parseEnclave (enclaveUserData enclave) = enclave.takeWhile (fun c => c ≠ 0x3b) := by
  have hpre : literal "enclave=" = [0x65, 0x6e, 0x63, 0x6c, 0x61, 0x76, 0x65, 0x3d] := by decide
  have hsemi : literal ";" = [0x3b] := by decide
  have hafter : afterFirst (literal "enclave=") (enclaveUserData enclave) = some (enclave ++ [0x3b]) := by
    rw [enclaveUserData, hpre, hsemi]
    simp [afterFirst]
  have hparse : parseEnclave (enclaveUserData enclave) = (enclave ++ [0x3b]).takeWhile (fun c => c ≠ 0x3b) := by
    unfold parseEnclave
    rw [show "enclave=".toUTF8.data.toList = literal "enclave=" from rfl, hafter]
  rw [hparse, List.takeWhile_append]
  split_ifs with h
  · rw [(List.takeWhile_sublist _).eq_of_length h]
    simp
  · rfl

theorem gidKey_announcement (n : RclNode) : gidKey n.announcement = n.guid := by
  have hlen : (n.guid.toList.map UInt8.toBitVec).length = 16 := by simp
  have hid : UInt8.ofBitVec ∘ UInt8.toBitVec = id := funext fun _ => rfl
  have hback : (n.guid.toList.map UInt8.toBitVec).map UInt8.ofBitVec = n.guid.toList := by
    rw [List.map_map, hid, List.map_id]
  apply List.Vector.toList_injective
  change ((n.guid.toList.map UInt8.toBitVec ++ n.unset.toList).take 16).map UInt8.ofBitVec = _
  rw [List.take_left' hlen, hback]

theorem nodeInfos_announcement (n : RclNode) : nodeInfos n.announcement = [⟨n.ns, n.name, [], []⟩] := rfl

/-- Both parts of the name are shorter than the whole. -/
theorem names_length (n : RclNode) : n.ns.length + 9 < 2^32 ∧ n.name.length + 9 < 2^32 := by
  obtain ⟨-, hfq⟩ := n.accepted
  have hfits := n.fits
  have hpre : (literal "enclave=").length = 8 := by decide
  have hsemi : (literal ";").length = 1 := by decide
  have hslash : (literal "/").length = 1 := by decide
  rw [enclaveUserData, List.length_append, List.length_append, hpre, hsemi, hfq, fqNodeName] at hfits
  split_ifs at hfits with h
  · rw [List.length_append, hslash] at hfits
    rw [h, hslash]
    omega
  · rw [List.length_append, List.length_append, hslash] at hfits
    omega

theorem announcement_fits (n : RclNode) : participantEntitiesInfoSchema.Fits StringFits n.announcement := by
  have hseq : ∀ (T : Type) (ok : T → Prop), Shape.Fits ok .seq ([] : List T) := fun T ok => ⟨by simp, nofun⟩
  obtain ⟨hns, hname⟩ := n.names_length
  refine ⟨⟨fun _ _ => trivial, trivial⟩, ⟨(by decide : 1 < 2^32), ?_⟩, trivial⟩
  intro x hx
  rw [List.mem_singleton.mp hx]
  refine ⟨?_, ?_, hseq _ _, hseq _ _, trivial⟩
  · change n.ns.length + 1 < 2^32
    omega
  · change n.name.length + 1 < 2^32
    omega

/-- The announcement is little longer than the names in it. -/
theorem encode_announcement_length (n : RclNode) :
    (participantEntitiesInfoSchema.encode n.announcement).length < 2^34 := by
  have hcount : ∀ (k : ℕ) (w : CdrWriter),
      ((w.alignTo 4).writeUint32 (BitVec.ofNat 32 k)).buf.length ≤ w.buf.length + 10 := by
    intro k w
    have h1 := padding_lt 4 w.payloadOffset (by decide)
    have h2 := padding_lt 4 (w.alignTo 4).payloadOffset (by decide)
    rw [CdrWriter.writeUint32_buf, CdrWriter.alignTo_buf]
    simp only [List.length_append, List.length_replicate, LittleEndian.toBytes_length]
    omega
  have hstring : ∀ (s : List UInt8) (w : CdrWriter),
      (CdrWriter.writeString s w).buf.length ≤ w.buf.length + s.length + 8 := by
    intro s w
    have hpad := padding_lt 4 w.payloadOffset (by decide)
    rw [writeString_length]
    omega
  have hgid : (gidSchema.serialize (n.gid, ()) CdrWriter.new).buf.length = 28 := gidSchema_serialize_length _ _
  -- the writer after the guid, the count, the two names and the two empty lists
  have hencode : participantEntitiesInfoSchema.encode n.announcement =
      (nodeEntitiesInfoSchema.serialize (n.ns, n.name, [], [], ())
        (((gidSchema.serialize (n.gid, ()) CdrWriter.new).alignTo 4).writeUint32 (BitVec.ofNat 32 1))).buf := rfl
  have hnode : ∀ w : CdrWriter, nodeEntitiesInfoSchema.serialize (n.ns, n.name, [], [], ()) w =
      ((((CdrWriter.writeString n.name (CdrWriter.writeString n.ns w)).alignTo 4).writeUint32
        (BitVec.ofNat 32 0)).alignTo 4).writeUint32 (BitVec.ofNat 32 0) := fun _ => rfl
  obtain ⟨hns, hname⟩ := n.names_length
  have hstart := hcount 1 (gidSchema.serialize (n.gid, ()) CdrWriter.new)
  rw [hencode, hnode]
  generalize ((gidSchema.serialize (n.gid, ()) CdrWriter.new).alignTo 4).writeUint32 (BitVec.ofNat 32 1) = w at hstart
  have h1 := hstring n.ns w
  have h2 := hstring n.name (CdrWriter.writeString n.ns w)
  have h3 := hcount 0 (CdrWriter.writeString n.name (CdrWriter.writeString n.ns w))
  refine Nat.lt_of_le_of_lt (hcount 0 _) ?_
  omega

theorem decode_announcement (n : RclNode) :
    ∃ r, participantEntitiesInfoSchema.decode true n.announcementPayload = .ok (n.announcement, r) := by
  have hlen : n.announcementPayload.length < 2^64 := by
    have hbound := n.encode_announcement_length
    have hpad : rawPad (participantEntitiesInfoSchema.encode n.announcement).length < 4 := Nat.mod_lt _ (by decide)
    rw [announcementPayload, rawResize, List.length_append, List.length_replicate]
    omega
  exact ⟨_, Members.decode_encode _ participantEntitiesInfo_nonempty n.announcement n.announcement_fits _ hlen⟩

/-- What the monitor makes of the user data of the node's participant. -/
def enclave (n : RclNode) : List UInt8 := n.fqName.takeWhile (fun c => c ≠ 0x3b)

theorem enclave_head (n : RclNode) : ∃ rest, n.enclave = 0x2f :: rest := by
  obtain ⟨rest, hfq⟩ := n.fqName_head
  rw [enclave, hfq]
  exact ⟨_, List.takeWhile_cons_of_pos (by decide)⟩

theorem enclave_eq_iff (n : RclNode) : n.enclave = n.fqName ↔ 0x3b ∉ n.fqName := by
  rw [enclave, List.takeWhile_eq_self_iff]
  constructor
  · intro h hmem
    simpa using h _ hmem
  · intro h c hc
    simpa using fun heq : c = 0x3b => h (heq ▸ hc)

end RclNode

end Nodes

/-- Samples that say nothing of a node: those of the monitor's own participant and its endpoints, and log
records that throw no exception. -/
def MonitorSample.Aside (self : Guid) (nodes : List RclNode) : MonitorSample → Prop
  | .participant s => s.key = self
  | .endpoint _ s => s.participantKey = self ∧ ∀ n ∈ nodes, ∀ e ∈ n.endpoints, e.guid ≠ s.key
  | .discovery _ => False
  | .rosout payload => logSchema.DecodesQuietly payload

/-- The nodes and the monitor have participants of their own, every endpoint has its own guid, and the
monitor has processed the samples of all nodes, in any order and any number of times, and no others. -/
structure NodesObserved (own : Guid) (nodes : List RclNode) (samples : List MonitorSample) : Prop where
  others : ∀ n ∈ nodes, n.guid ≠ own
  participants : ∀ n ∈ nodes, ∀ n' ∈ nodes, n.guid = n'.guid → n = n'
  endpoints : ∀ n ∈ nodes, ∀ n' ∈ nodes, ∀ e ∈ n.endpoints, ∀ e' ∈ n'.endpoints, e.guid = e'.guid → n = n' ∧ e = e'
  all : ∀ n ∈ nodes, ∀ x ∈ n.samples, x ∈ samples
  only : ∀ x ∈ samples, (∃ n ∈ nodes, x ∈ n.samples) ∨ x.Aside own nodes

/-- What one sample can do to the maps: enter what a node says of itself, or touch nothing of any node. -/
structure Effect (own : Guid) (nodes : List RclNode) (m m' : GraphState) : Prop where
  participants : (∃ n ∈ nodes, m'.participants = m.participants.insert n.guid n.enclave) ∨
    ∀ g, g ≠ own → m'.participants.find? g = m.participants.find? g
  discovery : (∃ n ∈ nodes, m'.discovery = m.discovery.insert n.guid n.announcement) ∨
    ∀ g, g ≠ own → m'.discovery.find? g = m.discovery.find? g
  endpoints : (∃ n ∈ nodes, ∃ e ∈ n.endpoints, m'.endpoints = m.endpoints.insert e.guid (n.endpointInfo e)) ∨
    ∀ k info, info.participant ≠ own →
      (m'.endpoints.find? k = some info → m.endpoints.find? k = some info) ∧
      ((∃ n ∈ nodes, ∃ e ∈ n.endpoints, e.guid = k) → m.endpoints.find? k = some info →
        m'.endpoints.find? k = some info)

namespace Monitor
variable {self : Guid} {nodes : List RclNode} {samples : List MonitorSample}

theorem endpoints_untouched {m m' : GraphState} (h : m'.endpoints = m.endpoints) :
    ∀ k info, info.participant ≠ self →
      (m'.endpoints.find? k = some info → m.endpoints.find? k = some info) ∧
      ((∃ n ∈ nodes, ∃ e ∈ n.endpoints, e.guid = k) → m.endpoints.find? k = some info →
        m'.endpoints.find? k = some info) := by
  rw [h]
  exact fun k info _ => ⟨id, fun _ => id⟩

theorem absorb_node {n : RclNode} (hn : n ∈ nodes) {x : MonitorSample} (hx : x ∈ n.samples) (m : GraphState) :
    Effect self nodes m (m.absorb gidKey x) := by
  rcases List.mem_cons.mp hx with rfl | hx
  · refine ⟨Or.inl ⟨n, hn, ?_⟩, Or.inr fun _ _ => rfl, Or.inr (endpoints_untouched rfl)⟩
    change m.participants.insert n.guid (parseEnclave (enclaveUserData n.fqName)) = _
    rw [RclNode.parseEnclave_userData]
    rfl
  rcases List.mem_cons.mp hx with rfl | hx
  · obtain ⟨r, hdec⟩ := n.decode_announcement
    have habsorb : m.absorb gidKey (.discovery n.announcementPayload) = m.recordDiscovery gidKey n.announcement := by
      simp only [absorb, hdec]
    rw [habsorb]
    refine ⟨Or.inr fun _ _ => rfl, Or.inl ⟨n, hn, ?_⟩, Or.inr (endpoints_untouched rfl)⟩
    change m.discovery.insert (gidKey n.announcement) n.announcement = _
    rw [n.gidKey_announcement]
  · obtain ⟨e, he, rfl⟩ := List.mem_map.mp hx
    exact ⟨Or.inr fun _ _ => rfl, Or.inr fun _ _ => rfl, Or.inl ⟨n, hn, e, he, rfl⟩⟩

/-- The monitor's own participant comes and goes under its own key. -/
theorem onParticipant_own {p : ParticipantSample} (hkey : p.key = self) (m : GraphState) :
    Effect self nodes m (m.onParticipant p) := by
  unfold onParticipant
  split_ifs
  · refine ⟨Or.inr fun g hg => ?_, Or.inr fun _ _ => rfl, Or.inr (endpoints_untouched rfl)⟩
    exact AssocMap.find?_insert_ne _ _ (hkey ▸ hg)
  · refine ⟨Or.inr fun g hg => ?_, Or.inr fun g hg => ?_, Or.inr fun k info hp => ⟨fun h => ?_, fun _ h => ?_⟩⟩
    · exact AssocMap.find?_erase_ne _ (hkey ▸ hg)
    · exact AssocMap.find?_erase_ne _ (hkey ▸ hg)
    · exact ((AssocMap.find?_eraseIf _ _ _ _).mp h).1
    · exact (AssocMap.find?_eraseIf _ _ _ _).mpr ⟨h, by simpa [hkey] using hp⟩

/-- Its endpoints have no guid of a node's endpoint, so they replace and remove only its own. -/
theorem onEndpoint_own (writer : Bool) {p : EndpointSample} (hown : p.participantKey = self)
    (hfree : ∀ n ∈ nodes, ∀ e ∈ n.endpoints, e.guid ≠ p.key) (m : GraphState) :
    Effect self nodes m (m.onEndpoint writer p) := by
  have hother : ∀ k, (∃ n ∈ nodes, ∃ e ∈ n.endpoints, e.guid = k) → k ≠ p.key := by
    rintro k ⟨n, hn, e, he, rfl⟩
    exact hfree n hn e he
  unfold onEndpoint
  split_ifs
  · refine ⟨Or.inr fun _ _ => rfl, Or.inr fun _ _ => rfl, Or.inr fun k info hp => ⟨fun h => ?_, fun hk h => ?_⟩⟩
    · by_cases hk : k = p.key
      · subst hk
        rw [AssocMap.find?_insert_self, Option.some_inj] at h
        exact absurd (h ▸ hown) hp
      · rwa [AssocMap.find?_insert_ne _ _ hk] at h
    · rwa [AssocMap.find?_insert_ne _ _ (hother k hk)]
  · refine ⟨Or.inr fun _ _ => rfl, Or.inr fun _ _ => rfl, Or.inr fun k info hp => ⟨fun h => ?_, fun hk h => ?_⟩⟩
    · exact ((AssocMap.find?_eraseIf _ _ _ _).mp h).1
    · rwa [AssocMap.find?_erase_ne _ (hother k hk)]

/-- A log record is kept apart from the maps. -/
theorem absorb_rosout (payload : List UInt8) (m : GraphState) :
    Effect self nodes m (m.absorb gidKey (.rosout payload)) := by
  have hmaps : ∀ msg, (m.recordLog msg).participants = m.participants ∧
      (m.recordLog msg).discovery = m.discovery ∧ (m.recordLog msg).endpoints = m.endpoints := by
    intro msg
    simp only [recordLog, and_self]
  cases hdec : logSchema.decode true payload with
  | error e =>
    simp only [absorb, hdec]
    exact ⟨Or.inr fun _ _ => rfl, Or.inr fun _ _ => rfl, Or.inr (endpoints_untouched rfl)⟩
  | ok r =>
    obtain ⟨hp, hd, he⟩ := hmaps r.1
    simp only [absorb, hdec]
    refine ⟨Or.inr fun _ _ => ?_, Or.inr fun _ _ => ?_, Or.inr (endpoints_untouched he)⟩
    · rw [hp]
    · rw [hd]

theorem absorb_aside {x : MonitorSample} (hx : x.Aside self nodes) (m : GraphState) :
    Effect self nodes m (m.absorb gidKey x) := by
  cases x with
  | participant p => exact onParticipant_own hx m
  | endpoint writer p => exact onEndpoint_own writer hx.1 hx.2 m
  | discovery payload => exact absurd hx id
  | rosout payload => exact absorb_rosout payload m

theorem absorb_effect (h : NodesObserved self nodes samples) {x : MonitorSample} (hx : x ∈ samples) (m : GraphState) :
    Effect self nodes m (m.absorb gidKey x) := by
  rcases h.only x hx with ⟨n, hn, hmem⟩ | haside
  · exact absorb_node hn hmem m
  · exact absorb_aside haside m

/-- Nothing the monitor has observed makes its thread throw. -/
theorem observed_quiet (h : NodesObserved self nodes samples) :
    ∀ x ∈ samples, x.Quiet participantEntitiesInfoSchema logSchema := by
  intro x hx
  rcases h.only x hx with ⟨n, hn, hmem⟩ | haside
  · rcases List.mem_cons.mp hmem with rfl | hmem
    · trivial
    rcases List.mem_cons.mp hmem with rfl | hmem
    · obtain ⟨r, hdec⟩ := n.decode_announcement
      intro e he
      rw [hdec] at he
      cases he
    · obtain ⟨e, -, rfl⟩ := List.mem_map.mp hmem
      trivial
  · cases x with
    | participant s => trivial
    | endpoint writer s => trivial
    | discovery payload => exact absurd haside id
    | rosout payload => exact haside

/-- The maps hold what the nodes say of themselves, and, but for the monitor's own entries, nothing else. -/
structure Faithful (own : Guid) (nodes : List RclNode) (m : GraphState) : Prop where
  participants : ∀ g enclave, m.participants.find? g = some enclave → g ≠ own →
    ∃ n ∈ nodes, n.guid = g ∧ n.enclave = enclave
  discovery : ∀ g msg, m.discovery.find? g = some msg → g ≠ own → ∃ n ∈ nodes, n.guid = g ∧ n.announcement = msg
  endpoints : ∀ k info, m.endpoints.find? k = some info → info.participant ≠ own →
    ∃ n ∈ nodes, ∃ e ∈ n.endpoints, e.guid = k ∧ n.endpointInfo e = info

section Keyed
variable {β : Type} {val : RclNode → β} {old new : AssocMap Guid β}

/-- A map that a node's entry is put into, or none of a node's is touched in, holds nothing but entries of
nodes if it did before. -/
theorem entries_from_nodes (heff : (∃ n ∈ nodes, new = old.insert n.guid (val n)) ∨
      ∀ g, g ≠ self → new.find? g = old.find? g)
    (hold : ∀ g b, old.find? g = some b → g ≠ self → ∃ n ∈ nodes, n.guid = g ∧ val n = b) :
    ∀ g b, new.find? g = some b → g ≠ self → ∃ n ∈ nodes, n.guid = g ∧ val n = b := by
  intro g b hfind hg
  rcases heff with ⟨n, hn, rfl⟩ | hsame
  · exact AssocMap.find?_insert_forall (P := fun g b => g ≠ self → ∃ n ∈ nodes, n.guid = g ∧ val n = b)
      (fun _ => ⟨n, hn, rfl, rfl⟩) hold hfind hg
  · exact hold g b (hsame g hg ▸ hfind) hg

/-- And a node's entry stays in it, because participants are distinct. -/
theorem entry_kept (h : NodesObserved self nodes samples) {n : RclNode} (hn : n ∈ nodes)
    (heff : (∃ n ∈ nodes, new = old.insert n.guid (val n)) ∨ ∀ g, g ≠ self → new.find? g = old.find? g)
    (hold : old.find? n.guid = some (val n)) : new.find? n.guid = some (val n) := by
  rcases heff with ⟨n', hn', rfl⟩ | hsame
  · by_cases hg : n.guid = n'.guid
    · rw [h.participants n hn n' hn' hg, AssocMap.find?_insert_self]
    · rw [AssocMap.find?_insert_ne _ _ hg, hold]
  · exact (hsame _ (h.others n hn)).trans hold

end Keyed

theorem Faithful.step {m m' : GraphState} (h : Faithful self nodes m) (he : Effect self nodes m m') :
    Faithful self nodes m' := by
  refine ⟨entries_from_nodes he.participants h.participants, entries_from_nodes he.discovery h.discovery,
    fun k info hfind hp => ?_⟩
  rcases he.endpoints with ⟨n, hn, e, hmem, hins⟩ | hsame
  · rw [hins] at hfind
    exact AssocMap.find?_insert_forall (P := fun k info => info.participant ≠ self →
        ∃ n ∈ nodes, ∃ e ∈ n.endpoints, e.guid = k ∧ n.endpointInfo e = info)
      (fun _ => ⟨n, hn, e, hmem, rfl, rfl⟩) h.endpoints hfind hp
  · exact h.endpoints k info ((hsame k info hp).1 hfind) hp

/-- The state that a run over the observed samples ends in. -/
def observedState (samples : List MonitorSample) : GraphState :=
  samples.foldl (fun m x => m.absorb gidKey x) new

theorem faithful_observed (h : NodesObserved self nodes samples) : Faithful self nodes (observedState samples) := by
  refine List.foldlRecOn (motive := Faithful self nodes) samples _ ⟨nofun, nofun, nofun⟩ ?_
  exact fun m hm x hx => hm.step (absorb_effect h hx m)

section Complete
variable (h : NodesObserved self nodes samples) {n : RclNode} (hn : n ∈ nodes)
include h hn

theorem participants_observed : (observedState samples).participants.find? n.guid = some n.enclave := by
  refine Transition.foldl_establishes (Q := fun m : GraphState => m.participants.find? n.guid = some n.enclave)
    (h.all n hn (.participant n.participantSample) List.mem_cons_self) ?_ ?_ _
  · intro m
    change (m.participants.insert n.guid (parseEnclave (enclaveUserData n.fqName))).find? n.guid = _
    rw [AssocMap.find?_insert_self, RclNode.parseEnclave_userData]
    rfl
  · exact fun m x hx hm => entry_kept h hn (absorb_effect h hx m).participants hm

theorem discovery_observed : (observedState samples).discovery.find? n.guid = some n.announcement := by
  refine Transition.foldl_establishes (Q := fun m : GraphState => m.discovery.find? n.guid = some n.announcement)
    (h.all n hn (.discovery n.announcementPayload) (List.mem_cons_of_mem _ List.mem_cons_self)) ?_ ?_ _
  · intro m
    obtain ⟨r, hdec⟩ := n.decode_announcement
    simp only [absorb, hdec, recordDiscovery]
    rw [n.gidKey_announcement, AssocMap.find?_insert_self]
  · exact fun m x hx hm => entry_kept h hn (absorb_effect h hx m).discovery hm

theorem endpoints_observed {e : NodeEndpoint} (he : e ∈ n.endpoints) :
    (observedState samples).endpoints.find? e.guid = some (n.endpointInfo e) := by
  -- endpoints are keyed by their own guids
  have hsample : .endpoint e.writer (n.endpointSample e) ∈ n.samples :=
    List.mem_cons_of_mem _ (List.mem_cons_of_mem _ (List.mem_map.mpr ⟨e, he, rfl⟩))
  refine Transition.foldl_establishes
    (Q := fun m : GraphState => m.endpoints.find? e.guid = some (n.endpointInfo e)) (h.all n hn _ hsample) ?_ ?_ _
  · intro m
    exact AssocMap.find?_insert_self _ _ _
  · intro m x hx hm
    rcases (absorb_effect h hx m).endpoints with ⟨n', hn', e', he', hins⟩ | hsame
    · rw [hins]
      by_cases hg : e.guid = e'.guid
      · obtain ⟨rfl, rfl⟩ := h.endpoints n hn n' hn' e he e' he' hg
        rw [AssocMap.find?_insert_self]
      · rw [AssocMap.find?_insert_ne _ _ hg, hm]
    · exact (hsame e.guid (n.endpointInfo e) (h.others n hn)).2 ⟨n, hn, e, he, rfl⟩ hm

/-- An announcement without gids owns nothing, so the user data decides. -/
theorem owner_observed (endpoint : Guid) : (observedState samples).owner n.guid endpoint = (n.enclave, .userData) := by
  have hnone : ((observedState samples).discovery.find? n.guid).bind
      (fun msg => (nodeInfos msg).find? (fun i => i.owns endpoint)) = none := by
    rw [discovery_observed h hn, Option.bind_some, RclNode.nodeInfos_announcement]
    rfl
  -- a name that starts with a slash is not empty
  obtain ⟨rest, hhead⟩ := n.enclave_head
  unfold owner
  rw [hnone, participants_observed h hn, hhead]

end Complete

theorem mem_attributed_observed (h : NodesObserved self nodes samples) {x : LiveEndpoint} :
    x ∈ (observedState samples).attributed self ↔
      ∃ n ∈ nodes, ∃ e ∈ n.endpoints, x = ⟨e.guid, n.endpointInfo e, n.enclave, .userData⟩ := by
  have hascribe : ∀ n ∈ nodes, ∀ e ∈ n.endpoints, (observedState samples).ascribe (e.guid, n.endpointInfo e) =
      ⟨e.guid, n.endpointInfo e, n.enclave, .userData⟩ := by
    intro n hn e _
    have hown := owner_observed h hn e.guid
    unfold ascribe
    dsimp only [RclNode.endpointInfo]
    rw [hown]
  rw [mem_attributed]
  constructor
  · rintro ⟨k, info, hfind, hp, rfl⟩
    obtain ⟨n, hn, e, he, rfl, rfl⟩ := (faithful_observed h).endpoints k info hfind hp
    exact ⟨n, hn, e, he, hascribe n hn e he⟩
  · rintro ⟨n, hn, e, he, rfl⟩
    exact ⟨e.guid, n.endpointInfo e, endpoints_observed h hn he, h.others n hn, (hascribe n hn e he).symm⟩

theorem mem_announced_observed (h : NodesObserved self nodes samples) {i : NodeEntitiesInfo} :
    i ∈ (observedState samples).announced self ↔ ∃ n ∈ nodes, i = ⟨n.ns, n.name, [], []⟩ := by
  rw [mem_announced]
  constructor
  · rintro ⟨g, msg, hfind, hg, hi⟩
    obtain ⟨n, hn, rfl, rfl⟩ := (faithful_observed h).discovery g msg hfind hg
    exact ⟨n, hn, List.mem_singleton.mp hi⟩
  · rintro ⟨n, hn, rfl⟩
    exact ⟨n.guid, n.announcement, discovery_observed h hn, h.others n hn, List.mem_singleton_self _⟩

theorem accepted_observed (h : NodesObserved self nodes samples) : (observedState samples).NamesAccepted self := by
  intro i hi
  obtain ⟨n, -, rfl⟩ := (mem_announced_observed h).mp hi
  exact n.accepted.1

/-- Every node is noted under the name it announces, and under what its user data was read as. -/
theorem mem_notes_observed (h : NodesObserved self nodes samples) {name : List UInt8} {s : NodeSource} :
    (name, s) ∈ (observedState samples).notes self ↔
      ∃ n ∈ nodes, (name = n.fqName ∧ s = .discovery) ∨ (name = n.enclave ∧ s = .userData) := by
  unfold notes
  simp only [List.mem_append, List.mem_map, Prod.mk.injEq]
  constructor
  · rintro ((⟨x, hx, rfl, rfl⟩ | ⟨i, hi, rfl, rfl⟩) | ⟨enclave, hmem, rfl, rfl⟩)
    · obtain ⟨n, hn, e, -, rfl⟩ := (mem_attributed_observed h).mp hx
      exact ⟨n, hn, Or.inr ⟨rfl, rfl⟩⟩
    · obtain ⟨n, hn, rfl⟩ := (mem_announced_observed h).mp hi
      exact ⟨n, hn, Or.inl ⟨n.accepted.2.symm, rfl⟩⟩
    · obtain ⟨g, hfind, hg, -⟩ := mem_enclaves.mp hmem
      obtain ⟨n, hn, -, rfl⟩ := (faithful_observed h).participants g enclave hfind hg
      exact ⟨n, hn, Or.inr ⟨rfl, rfl⟩⟩
  · rintro ⟨n, hn, ⟨rfl, rfl⟩ | ⟨rfl, rfl⟩⟩
    · exact Or.inl (Or.inr ⟨_, (mem_announced_observed h).mpr ⟨n, hn, rfl⟩, n.accepted.2.symm, rfl⟩)
    · obtain ⟨rest, hhead⟩ := n.enclave_head
      refine Or.inr ⟨n.enclave, mem_enclaves.mpr ⟨n.guid, participants_observed h hn, h.others n hn, ?_⟩, rfl, rfl⟩
      rw [hhead]
      exact List.cons_ne_nil _ _

end Monitor

/-- The nodes of the snapshot are the given ones, each from discovery, and every endpoint is shown and
attributed to the node that created it. -/
structure SeenAs (nodes : List RclNode) (s : Snapshot) : Prop where
  names : ∀ name source, (name, source) ∈ s.nodes ↔ source = .discovery ∧ ∃ n ∈ nodes, n.fqName = name
  endpoints : ∀ x ∈ s.endpoints, ∃ n ∈ nodes, ∃ e ∈ n.endpoints, x.guid = e.guid ∧ x.node = n.fqName
  shown : ∀ n ∈ nodes, ∀ e ∈ n.endpoints, ∃ x ∈ s.endpoints, x.guid = e.guid ∧ x.node = n.fqName

namespace Monitor
variable {self : Guid} {nodes : List RclNode} {samples : List MonitorSample}

theorem run_observed {polls : List Poll} (h : NodesObserved self nodes (polls.flatMap Poll.samples)) :
    (new : GraphState).run gidKey polls = (observedState (polls.flatMap Poll.samples), none) := by
  rw [run_eq]
  exact (processAll_quiet _ new).mpr (observed_quiet h)

/-- An endpoint is shown with what the user data of its participant was read as. -/
theorem endpoint_shown (serviceFirst : Bool) (h : NodesObserved self nodes samples) {n : RclNode} (hn : n ∈ nodes)
    {e : NodeEndpoint} (he : e ∈ n.endpoints) :
    ∃ x ∈ ((observedState samples).view serviceFirst self).endpoints, x.guid = e.guid ∧ x.node = n.enclave :=
  ⟨_, (mem_attributed_observed h).mpr ⟨n, hn, e, he, rfl⟩, rfl, rfl⟩

/-- The whole names are read back, so that both ways give one name. -/
theorem seen_of_plain (serviceFirst : Bool) (h : NodesObserved self nodes samples)
    (hplain : ∀ n ∈ nodes, 0x3b ∉ n.fqName) :
    SeenAs nodes ((observedState samples).view serviceFirst self) := by
  have henclave : ∀ n ∈ nodes, n.enclave = n.fqName := fun n hn => n.enclave_eq_iff.mpr (hplain n hn)
  have hsource : ∀ name source, (name, source) ∈ ((observedState samples).view serviceFirst self).nodes →
      source = .discovery ∧ ∃ n ∈ nodes, n.fqName = name := by
    intro name source hmem
    obtain ⟨hnote, hbest⟩ := mem_view_nodes serviceFirst hmem
    obtain ⟨n, hn, hname⟩ := (mem_notes_observed h).mp hnote
    have hfq : name = n.fqName := by
      rcases hname with ⟨rfl, -⟩ | ⟨rfl, -⟩
      · rfl
      · exact henclave n hn
    -- the node was noted from discovery too, and no source ranks higher
    have hrank := hbest .discovery ((mem_notes_observed h).mpr ⟨n, hn, Or.inl ⟨hfq, rfl⟩⟩)
    refine ⟨?_, n, hn, hfq.symm⟩
    cases source with
    | discovery => rfl
    | userData => exact absurd hrank (by decide)
    | anonymous => exact absurd hrank (by decide)
  refine ⟨fun name source => ⟨hsource name source, ?_⟩, ?_, ?_⟩
  · rintro ⟨rfl, n, hn, rfl⟩
    have hmem := (view_nodes_names serviceFirst n.fqName).mpr
      ⟨.discovery, (mem_notes_observed h).mpr ⟨n, hn, Or.inl ⟨rfl, rfl⟩⟩⟩
    obtain ⟨⟨name, source⟩, hin, rfl⟩ := List.mem_map.mp hmem
    exact (hsource _ _ hin).1 ▸ hin
  · intro x hx
    obtain ⟨n, hn, e, he, rfl⟩ := (mem_attributed_observed h).mp hx
    exact ⟨n, hn, e, he, rfl, henclave n hn⟩
  · intro n hn e he
    exact henclave n hn ▸ endpoint_shown serviceFirst h hn he

/-- The writer of the announcement gives away a name that was cut. -/
theorem plain_of_seen (serviceFirst : Bool) (h : NodesObserved self nodes samples)
    (hseen : SeenAs nodes ((observedState samples).view serviceFirst self)) :
    ∀ n ∈ nodes, 0x3b ∉ n.fqName := by
  intro n hn
  obtain ⟨x, hx, hguid, hnode⟩ := hseen.shown n hn n.announcer List.mem_cons_self
  obtain ⟨n', hn', e, he, rfl⟩ := (mem_attributed_observed h).mp hx
  obtain ⟨rfl, -⟩ := h.endpoints n' hn' n hn e he n.announcer List.mem_cons_self hguid
  exact n'.enclave_eq_iff.mp hnode

end Monitor

/-- A monitor that has processed the samples of some nodes shows them under exactly their own names if and
only if none of the names has a semicolon. -/
theorem nodes_seen_iff (serviceFirst : Bool) (self : Guid) (nodes : List RclNode) (polls : List Poll)
    (h : NodesObserved self nodes (polls.flatMap Poll.samples)) :
    (∃ s, ((Monitor.new : GraphState).run gidKey polls).1.snapshot serviceFirst self = .ok s ∧ SeenAs nodes s) ↔
      ∀ n ∈ nodes, 0x3b ∉ n.fqName := by
  rw [Monitor.run_observed h, Monitor.snapshot_eq serviceFirst (Monitor.accepted_observed h)]
  constructor
  · rintro ⟨s, hs, hseen⟩
    cases hs
    exact Monitor.plain_of_seen serviceFirst h hseen
  · intro hplain
    exact ⟨_, rfl, Monitor.seen_of_plain serviceFirst h hplain⟩

section Bare

/-- A node of the root namespace that has created no endpoint but the writer of its announcement. -/
def bareNode (name : List UInt8) (h : nodeNames name [] = .ok (literal "/", literal "/" ++ name))
    (hfits : (enclaveUserData (literal "/" ++ name)).length < 2^32) : RclNode where
  guid := List.Vector.replicate 16 1
  unset := List.Vector.replicate 8 0xff
  name := name
  namespace_ := []
  ns := literal "/"
  fqName := literal "/" ++ name
  announcer := ⟨List.Vector.replicate 16 2, literal "ros_discovery_info",
    literal "rmw_dds_common::msg::dds_::ParticipantEntitiesInfo_", true⟩
  others := []
  constructed := h
  announces := ⟨rfl, rfl⟩
  fits := hfits

/-- Three polls that bring the monitor all there is of a bare node. -/
def barePolls (n : RclNode) : List Poll :=
  [.participants [n.participantSample], .discovery [⟨n.announcementPayload, true⟩],
    .builtin true [n.endpointSample n.announcer]]

theorem observed_bare (name : List UInt8) (h : nodeNames name [] = .ok (literal "/", literal "/" ++ name))
    (hfits : (enclaveUserData (literal "/" ++ name)).length < 2^32) :
    NodesObserved (List.Vector.replicate 16 0) [bareNode name h hfits]
      ((barePolls (bareNode name h hfits)).flatMap Poll.samples) := by
  have hsamples : (barePolls (bareNode name h hfits)).flatMap Poll.samples = (bareNode name h hfits).samples := rfl
  have hends : (bareNode name h hfits).endpoints = [(bareNode name h hfits).announcer] := rfl
  rw [hsamples]
  constructor
  · intro n hn
    rw [List.mem_singleton.mp hn]
    exact (by decide : (List.Vector.replicate 16 1 : Guid) ≠ List.Vector.replicate 16 0)
  · intro n hn n' hn' _
    rw [List.mem_singleton.mp hn, List.mem_singleton.mp hn']
  · intro n hn n' hn' e he e' he' _
    rw [List.mem_singleton] at hn hn'
    subst hn hn'
    rw [hends, List.mem_singleton] at he he'
    exact ⟨rfl, he.trans he'.symm⟩
  · intro n hn x hx
    rwa [List.mem_singleton.mp hn] at hx
  · intro x hx
    exact Or.inl ⟨_, List.mem_singleton_self _, hx⟩

/-- A node with a plain name. -/
def plainNode : RclNode := bareNode (literal "a") (by rfl) (by decide)

/-- The constructor accepts a semicolon in the name. -/
def cutNode : RclNode := bareNode (literal "a;b") (by rfl) (by decide)

theorem nodes_seen_iff_plain :
    ∃ s, ((Monitor.new : GraphState).run gidKey (barePolls plainNode)).1.snapshot true (List.Vector.replicate 16 0) =
      .ok s ∧ SeenAs [plainNode] s := by
  refine (nodes_seen_iff true _ [plainNode] (barePolls plainNode) (observed_bare _ _ _)).mpr ?_
  intro n hn
  rw [List.mem_singleton.mp hn]
  decide

/-- A node named `a;b` is listed a second time, as `/a`, and its endpoint is attributed to that. -/
theorem semicolon_splits_node :
    ∃ s, ((Monitor.new : GraphState).run gidKey (barePolls cutNode)).1.snapshot true (List.Vector.replicate 16 0) =
        .ok s ∧ cutNode.fqName = literal "/a;b" ∧ literal "/a" ∈ s.nodes.map Prod.fst ∧
      (∃ x ∈ s.endpoints, x.guid = cutNode.announcer.guid ∧ x.node = literal "/a") ∧ ¬ SeenAs [cutNode] s := by
  have h : NodesObserved (List.Vector.replicate 16 0) [cutNode] ((barePolls cutNode).flatMap Poll.samples) :=
    observed_bare _ _ _
  have henclave : cutNode.enclave = literal "/a" := by decide
  have hmem : cutNode ∈ [cutNode] := List.mem_singleton_self _
  rw [Monitor.run_observed h, Monitor.snapshot_eq true (Monitor.accepted_observed h)]
  refine ⟨_, rfl, by decide, ?_, henclave ▸ Monitor.endpoint_shown true h hmem List.mem_cons_self, ?_⟩
  · exact (Monitor.view_nodes_names true _).mpr ⟨.userData, (Monitor.mem_notes_observed h).mpr
      ⟨cutNode, hmem, Or.inr ⟨henclave.symm, rfl⟩⟩⟩
  · intro hseen
    exact Monitor.plain_of_seen true h hseen cutNode hmem (by decide)

end Bare

end Rcllite
