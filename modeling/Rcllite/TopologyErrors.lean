import Rcllite.GraphTopology

/-! Which exceptions the constructor of `GraphExecutor` lets out. What it checks of a document is listed in
the order in which it reads it: members whose type it leaves to the JSON library, and everything it looks at
itself. -/
namespace Rcllite.Topology
open JsonValue Checks
open Utf8 (literal)

section Document

def isString : Value → Bool
  | .string _ => true
  | _ => false

def isNumber : Value → Bool
  | .integer _ | .float _ => true
  | _ => false

/-- A member that is there has the type the JSON library is asked for. -/
def typed (spec : Value) (key : List UInt8) (p : Value → Bool) : Check := .foreign ((spec.find? key).all p)

/-- A string member, or what stands for it. -/
def textOf (spec : Value) (key otherwise : List UInt8) : List UInt8 :=
  match spec.find? key with
  | some (.string s) => s
  | _ => otherwise

def hexValid (hex : List UInt8) : Bool := hex.length % 2 == 0 && hex.all fun c => (nibble c).isSome

def qosChecks : Value → List Check
  | .object members =>
    [typed (.object members) (literal "reliability") isString, typed (.object members) (literal "durability") isString,
      typed (.object members) (literal "depth") isNumber]
  | _ => []

def nameChecks (namespace_ : List UInt8) (spec : Value) : List Check :=
  [.own (spec.contains (literal "topic") && spec.contains (literal "type")),
    typed spec (literal "type") isString, .own (ddsTypeName (textOf spec (literal "type") [])).isOk,
    typed spec (literal "topic") isString, .own (expandTopicName (textOf spec (literal "topic") []) namespace_).isOk]

/-- The name of the topic and the QoS, as the compiler orders them. -/
def argumentChecks (host : Host) (namespace_ : List UInt8) (spec : Value) : List Check :=
  let topic := .own (expandTopicName (textOf spec (literal "topic") []) namespace_ >>= rosToDdsTopicName).isOk
  let qos := qosChecks ((spec.find? (literal "qos")).getD (.object []))
  if host.qosFirst then qos ++ [topic] else topic :: qos

def publisherChecks (host : Host) (namespace_ : List UInt8) (spec : Value) : List Check :=
  nameChecks namespace_ spec ++
    ([typed spec (literal "payload_hex") isString, .own (hexValid (textOf spec (literal "payload_hex") []))] ++
      (typed spec (literal "rate_hz") isNumber :: argumentChecks host namespace_ spec))

def subscriptionChecks (host : Host) (namespace_ : List UInt8) (spec : Value) : List Check :=
  nameChecks namespace_ spec ++ argumentChecks host namespace_ spec

/-- The node of a document whose names are strings. -/
def nodeOf (host : Host) (spec : Value) : Option TopologyNode :=
  let name := textOf spec (literal "name") []
  let namespace_ := textOf spec (literal "namespace") (literal "/")
  if spec.contains (literal "class") then
    (host.createByName (textOf spec (literal "class") []) name namespace_).bind Except.toOption
  else (nodeNames name namespace_).toOption.map fun names => ⟨names.2, none⟩

instance : DecidablePred Raised.IsError
  | .error _ => isTrue trivial
  | .json _ | .other => isFalse id

/-- The constructor of the class the document names raises nothing but errors of this library. -/
def classReports (host : Host) (spec : Value) : Bool :=
  let name := textOf spec (literal "name") []
  let namespace_ := textOf spec (literal "namespace") (literal "/")
  !spec.contains (literal "class") ||
    match host.createByName (textOf spec (literal "class") []) name namespace_ with
    | some (.error e) => decide e.IsError
    | _ => true

def servicesNamed (fqName : List UInt8) : Bool :=
  ParameterService.all.all fun service => (validateFqn (fqName ++ literal "/" ++ service.token)).isOk

/-- Parameters the node declares: names it does not have yet, scalar values, and services with a name. -/
def acceptsParameters (node : TopologyNode) (members : List (List UInt8 × Value)) : Bool :=
  members.isEmpty || ((node.core.isSome || servicesNamed node.fqName) && decide (members.map Prod.fst).Nodup &&
    members.all fun m => m.1 != [] && (node.core.all fun core => (core.values.find? m.1).isNone) &&
      (parameterValue? m.2).isSome)

def acceptsMember (node : TopologyNode) : Option Value → Bool
  | none => true
  | some (.object members) => acceptsParameters node members
  | some _ => false

def nodeChecks (host : Host) (spec : Value) : List Check :=
  let namespace_ := textOf spec (literal "namespace") (literal "/")
  [.own (spec.contains (literal "name")), typed spec (literal "namespace") isString,
    typed spec (literal "name") isString] ++
  ([typed spec (literal "class") isString, .foreign (classReports host spec), .own (nodeOf host spec).isSome] ++
  (.own ((nodeOf host spec).all fun node => acceptsMember node (spec.find? (literal "parameters"))) ::
  ((elementsOf spec (literal "publishers")).flatMap (publisherChecks host namespace_) ++
    (elementsOf spec (literal "subscriptions")).flatMap (subscriptionChecks host namespace_))))

/-- Everything the constructor checks, in the order of the document. -/
def topologyChecks (host : Host) (text : List UInt8) : List Check :=
  match host.jsonFromDoc text with
  | .error _ => [.own false]
  | .ok doc =>
    match doc.find? (literal "nodes") with
    | some (.array nodes) => .own (!nodes.isEmpty) :: nodes.flatMap (nodeChecks host)
    | _ => [.own false]

end Document

section Steps

theorem reports_own {α : Type} {x : Except Raised α} (h : ∀ e, x = .error e → e.IsError) :
    Reports Raised.IsError [.own x.isOk] x := by
  cases x with
  | ok a => rfl
  | error e => exact .inl ⟨h e rfl, rfl⟩

theorem reports_ofNames {α : Type} (x : Except (List UInt8) α) : Reports Raised.IsError [.own x.isOk] (ofNames x) := by
  cases x with
  | ok a => rfl
  | error e => exact .inl ⟨trivial, rfl⟩

theorem of_ofNames_ok {α : Type} {x : Except (List UInt8) α} {a : α} (h : ofNames x = .ok a) : x = .ok a := by
  cases x with
  | ok b =>
    cases h
    rfl
  | error e => cases h

/-- An accessor of the JSON library takes the values of one type. -/
def Reads {α : Type} (get : Value → Except AccessError α) (p : Value → Bool) : Prop := ∀ v, (get v).isOk = p v

theorem reads_string : Reads Value.getString isString := by
  intro v
  cases v <;> rfl

theorem reads_number : Reads Value.getNumber isNumber := by
  intro v
  cases v <;> rfl

variable {α : Type} {get : Value → Except AccessError α} {p : Value → Bool} {spec : Value} {key : List UInt8}

theorem Reads.reports (h : Reads get p) (v : Value) : Reports Raised.IsError [.foreign (p v)] (ofJson (get v)) := by
  rw [← h v]
  cases get v with
  | ok a => rfl
  | error e => exact .inr ⟨id, rfl⟩

theorem fetch_of_find {x : Value} (h : spec.find? key = some x) : spec.fetch key = .ok x := by
  rw [Value.find?] at h
  rw [Value.fetch]
  cases hm : spec.members? with
  | none =>
    rw [hm] at h
    cases h
  | some members =>
    rw [hm, Option.bind_some] at h
    simp only [h]

/-- `at` after `contains`, and the conversion of what it finds. -/
theorem Reads.fetch (h : Reads get p) (hc : spec.contains key = true) :
    Reports Raised.IsError [typed spec key p] (ofJson (spec.fetch key >>= get)) := by
  obtain ⟨x, hx⟩ := Option.isSome_iff_exists.mp hc
  rw [fetch_of_find hx, typed, hx]
  exact h.reports x

theorem valueOr_of_contains {members : List (List UInt8 × Value)} (hm : spec.members? = some members) (otherwise : α) :
    spec.valueOr get key otherwise = ((spec.find? key).map get).getD (.ok otherwise) := by
  rw [Value.valueOr, Value.find?, hm, Option.bind_some]
  cases hx : members.lookup key with
  | none => simp only [hx, Option.map_none, Option.getD_none]
  | some x => simp only [hx, Option.map_some, Option.getD_some]

theorem Reads.valueOr (h : Reads get p) {members : List (List UInt8 × Value)} (hm : spec.members? = some members)
    (otherwise : α) : Reports Raised.IsError [typed spec key p] (ofJson (spec.valueOr get key otherwise)) := by
  rw [valueOr_of_contains hm, typed]
  cases spec.find? key with
  | none => rfl
  | some x => exact h.reports x

theorem of_getString_ok {x : Value} {s : List UInt8} (h : ofJson x.getString = .ok s) : x = .string s := by
  cases x with
  | string t =>
    cases h
    rfl
  -- every other kind of value has raised
  | _ => cases h

theorem textOf_of_fetch {s otherwise : List UInt8} (hc : spec.contains key = true)
    (h : ofJson (spec.fetch key >>= Value.getString) = .ok s) : textOf spec key otherwise = s := by
  obtain ⟨x, hx⟩ := Option.isSome_iff_exists.mp hc
  rw [fetch_of_find hx] at h
  rw [textOf, hx, of_getString_ok h]

theorem textOf_of_valueOr {members : List (List UInt8 × Value)} (hm : spec.members? = some members)
    {s otherwise : List UInt8} (h : ofJson (spec.valueOr Value.getString key otherwise) = .ok s) :
    textOf spec key otherwise = s := by
  rw [valueOr_of_contains hm] at h
  rw [textOf]
  cases hx : spec.find? key with
  | none =>
    rw [hx] at h
    cases h
    rfl
  | some x =>
    rw [hx] at h
    rw [of_getString_ok h]

theorem members_of_contains (h : spec.contains key = true) : ∃ members, spec.members? = some members := by
  rw [Value.contains, Value.find?] at h
  cases hm : spec.members? with
  | none =>
    rw [hm] at h
    cases h
  | some members => exact ⟨members, rfl⟩

end Steps

section Endpoints

theorem find_of_not_contains {spec : Value} {key : List UInt8} (h : spec.contains key = false) :
    spec.find? key = none := by
  rw [Value.contains] at h
  cases hx : spec.find? key with
  | none => rfl
  | some x =>
    rw [hx] at h
    cases h

/-- A conversion made only when the member is there. -/
theorem reports_if_contains {α : Type} {p : Value → Bool} {spec : Value} {key : List UInt8} {x : Except Raised α}
    {a : α} {cs : List Check} (hx : spec.contains key = true → Reports Raised.IsError (typed spec key p :: cs) x)
    (hcs : spec.contains key = false → firstFault cs = none) :
    Reports Raised.IsError (typed spec key p :: cs) (if spec.contains key then x else .ok a) := by
  cases hc : spec.contains key with
  | true => exact hx hc
  | false =>
    have htyped : typed spec key p = .foreign true := by rw [typed, find_of_not_contains hc]; rfl
    rw [htyped]
    exact hcs hc

theorem reports_parseQos (qos : Value) (base : QoS) : Reports Raised.IsError (qosChecks qos) (parseQos qos base) := by
  cases qos with
  | object members =>
    refine Reports.bind_cons (reads_string.valueOr rfl _) fun reliability _ => ?_
    refine Reports.bind_cons (reads_string.valueOr rfl _) fun durability _ => ?_
    refine reports_if_contains (fun hc => ?_) fun _ => rfl
    exact Reports.bind_cons (reads_number.fetch hc) fun depth _ => rfl
  | _ => rfl

variable {spec : Value} {members : List (List UInt8 × Value)}

theorem reports_endpointQos (hm : spec.members? = some members) :
    Reports Raised.IsError (qosChecks ((spec.find? (literal "qos")).getD (.object []))) (endpointQos spec) := by
  rw [endpointQos, valueOr_of_contains hm]
  cases spec.find? (literal "qos") with
  | none => exact reports_parseQos _ _
  | some qos => exact reports_parseQos qos _

theorem reports_endpointArguments (host : Host) {namespace_ topic : List UInt8} (hm : spec.members? = some members)
    (htopic : expandTopicName (textOf spec (literal "topic") []) namespace_ = .ok topic) :
    Reports Raised.IsError (argumentChecks host namespace_ spec) (endpointArguments host topic spec) := by
  have hname : (expandTopicName (textOf spec (literal "topic") []) namespace_ >>= rosToDdsTopicName).isOk =
      (rosToDdsTopicName topic).isOk := by
    rw [htopic]
    rfl
  rw [argumentChecks, endpointArguments, hname]
  cases host.qosFirst with
  | true =>
    refine Reports.bind (reports_endpointQos hm) fun qos _ => ?_
    exact Reports.bind_cons (reports_ofNames _) fun ddsTopic _ => rfl
  | false =>
    refine Reports.bind_cons (reports_ofNames _) fun ddsTopic _ => ?_
    exact Reports.bind_last (reports_endpointQos hm) fun qos => rfl

theorem reports_endpointNames (what namespace_ : List UInt8) (spec : Value) :
    Reports Raised.IsError (nameChecks namespace_ spec) (endpointNames what namespace_ spec) := by
  rw [endpointNames, nameChecks]
  refine Reports.guard trivial fun hboth => ?_
  obtain ⟨htopic, htype⟩ := Bool.and_eq_true_iff.mp hboth
  refine Reports.bind_cons (reads_string.fetch htype) fun type hread => ?_
  rw [textOf_of_fetch htype hread]
  refine Reports.bind_cons (reports_ofNames _) fun ddsType _ => ?_
  refine Reports.bind_cons (reads_string.fetch htopic) fun topic hread => ?_
  rw [textOf_of_fetch htopic hread]
  exact Reports.bind_cons (reports_ofNames _) fun expanded _ => rfl

/-- What the names of an endpoint say about the document when they are accepted. -/
theorem endpointNames_ok {what namespace_ type topic : List UInt8} {spec : Value}
    (h : endpointNames what namespace_ spec = .ok (type, topic)) :
    (∃ members, spec.members? = some members) ∧
      expandTopicName (textOf spec (literal "topic") []) namespace_ = .ok topic := by
  rw [endpointNames] at h
  split_ifs at h with hboth
  obtain ⟨htopic, htype⟩ := Bool.and_eq_true_iff.mp hboth
  refine ⟨members_of_contains htopic, ?_⟩
  obtain ⟨t, -, h⟩ := bind_eq_ok.mp h
  obtain ⟨t', -, h⟩ := bind_eq_ok.mp h
  obtain ⟨u, hread, h⟩ := bind_eq_ok.mp h
  obtain ⟨u', hexpand, h⟩ := bind_eq_ok.mp h
  cases h
  rw [textOf_of_fetch htopic hread]
  exact of_ofNames_ok hexpand

theorem hexBytes_isSome {hex : List UInt8} (heven : hex.length % 2 = 0) :
    (hexBytes hex).isSome = hex.all fun c => (nibble c).isSome := by
  induction hex using hexBytes.induct with
  | case1 hi lo hex ih =>
    rw [List.length_cons, List.length_cons, Nat.add_assoc, Nat.add_mod_right] at heven
    rw [hexBytes, List.all_cons, List.all_cons, ← ih heven]
    cases nibble hi with
    | none => rfl
    | some h =>
      cases nibble lo with
      | none => rfl
      | some l =>
        cases hexBytes hex with
        | none => rfl
        | some bytes => rfl
  | case2 hex hne =>
    cases hex with
    | nil => rfl
    | cons c hex =>
      cases hex with
      | nil => cases heven
      | cons d hex => exact absurd rfl (hne c d hex)

theorem reports_payloadFromHex (hex what : List UInt8) :
    Reports Raised.IsError [.own (hexValid hex)] (payloadFromHex hex what) := by
  rw [payloadFromHex, hexValid]
  by_cases heven : hex.length % 2 = 0
  · rw [if_neg (not_not.mpr heven), ← hexBytes_isSome heven, heven]
    cases hexBytes hex with
    | none => exact .inl ⟨trivial, rfl⟩
    | some bytes => rfl
  · rw [if_pos heven, beq_eq_false_iff_ne.mpr heven]
    exact .inl ⟨trivial, rfl⟩

theorem reports_publisherPayload (what : List UInt8) (spec : Value) :
    Reports Raised.IsError
      [typed spec (literal "payload_hex") isString, .own (hexValid (textOf spec (literal "payload_hex") []))]
      (publisherPayload what spec) := by
  refine reports_if_contains (fun hc => ?_) fun hc => ?_
  · refine Reports.bind_cons (reads_string.fetch hc) fun hex hread => ?_
    rw [textOf_of_fetch hc hread]
    exact reports_payloadFromHex hex what
  · have hnone := find_of_not_contains hc
    rw [textOf, hnone]
    rfl

/-- The payloads written stay as they were. -/
def Quiet (w : World) (w' : World) : Prop := w'.written = w.written

theorem follows_buildPublisher (host : Host) (fqName namespace_ : List UInt8) {w₀ : World} (spec : Value) (w : World)
    (hw : Quiet w₀ w) :
    Follows Raised.IsError (Quiet w₀) (publisherChecks host namespace_ spec)
      (buildPublisher host fqName namespace_ spec w) := by
  refine Follows.bind (follows_lift (reports_endpointNames _ namespace_ spec) hw) fun names w hnames hw => ?_
  obtain ⟨⟨members, hm⟩, htopic⟩ := endpointNames_ok (of_lift_ok hnames)
  refine Follows.bind (follows_lift (reports_publisherPayload _ spec) hw) fun payload w _ hw => ?_
  refine Follows.bind_cons (follows_lift (reads_number.valueOr hm _) hw) fun rateHz w _ hw => ?_
  exact Follows.bind_last (follows_lift (reports_endpointArguments host hm htopic) hw) fun arguments w hw => ⟨hw, rfl⟩

theorem follows_buildSubscription (host : Host) (fqName namespace_ : List UInt8) {w₀ : World} (spec : Value) (w : World)
    (hw : Quiet w₀ w) :
    Follows Raised.IsError (Quiet w₀) (subscriptionChecks host namespace_ spec)
      (buildSubscription host fqName namespace_ spec w) := by
  refine Follows.bind (follows_lift (reports_endpointNames _ namespace_ spec) hw) fun names w hnames hw => ?_
  obtain ⟨⟨members, hm⟩, htopic⟩ := endpointNames_ok (of_lift_ok hnames)
  exact Follows.bind_last (follows_lift (reports_endpointArguments host hm htopic) hw) fun arguments w hw => ⟨hw, rfl⟩

end Endpoints

section Nodes

def OnlyErrors {α : Type} (x : Except Raised α) : Prop := ∀ e, x = .error e → e.IsError

theorem OnlyErrors.bind {α β : Type} {x : Except Raised α} {f : α → Except Raised β} (hx : OnlyErrors x)
    (hf : ∀ a, OnlyErrors (f a)) : OnlyErrors (x >>= f) := by
  cases x with
  | ok a => exact hf a
  | error e =>
    rintro e' ⟨⟩
    exact hx e rfl

theorem onlyErrors_ok {α : Type} (a : α) : OnlyErrors (.ok a) := fun e h => by cases h

theorem onlyErrors_ofNames {α : Type} (x : Except (List UInt8) α) : OnlyErrors (ofNames x) := by
  cases x with
  | ok a => exact onlyErrors_ok a
  | error e =>
    rintro e' ⟨⟩
    trivial

theorem onlyErrors_createServices (fqName : List UInt8) (services : List ParameterService) :
    OnlyErrors (createServices fqName services) := by
  induction services with
  | nil => exact onlyErrors_ok ()
  | cons service rest ih =>
    refine OnlyErrors.bind (onlyErrors_ofNames _) fun _ => ?_
    exact OnlyErrors.bind (onlyErrors_ofNames _) fun _ => ih

theorem onlyErrors_params (node : TopologyNode) : OnlyErrors node.params := by
  rw [TopologyNode.params]
  cases node.core with
  | some core => exact onlyErrors_ok core
  | none => exact OnlyErrors.bind (onlyErrors_createServices _ _) fun _ => onlyErrors_ok _

theorem onlyErrors_ofParameter (r : Except ParameterError Unit × ParameterCore) : OnlyErrors (ofParameter r) := by
  obtain ⟨x, core⟩ := r
  rcases x with (message | message) | ⟨⟩
  · rintro e ⟨⟩
    trivial
  · rintro e ⟨⟩
    trivial
  · exact onlyErrors_ok core

theorem onlyErrors_declareParameters (host : Host) (node : TopologyNode) (members : List (List UInt8 × Value)) :
    OnlyErrors (declareParameters host node members) := by
  induction members generalizing node with
  | nil => exact onlyErrors_ok node
  | cons m rest ih =>
    refine OnlyErrors.bind ?_ fun node => ih node
    rw [declareParameter]
    cases parameterValue? m.2 with
    | none =>
      rintro e ⟨⟩
      trivial
    | some v =>
      refine OnlyErrors.bind (onlyErrors_params node) fun core => ?_
      exact OnlyErrors.bind (onlyErrors_ofParameter _) fun core => onlyErrors_ok _

def Undeclared (node : TopologyNode) (name : List UInt8) : Prop :=
  ∀ core, node.core = some core → core.values.find? name = none

theorem createServices_ok_iff {fqName : List UInt8} {services : List ParameterService} :
    createServices fqName services = .ok () ↔
      ∀ service ∈ services, (validateFqn (fqName ++ literal "/" ++ service.token)).isOk = true := by
  induction services with
  | nil => simp [createServices]
  | cons service rest ih =>
    rw [List.forall_mem_cons, createServices, rosToDdsRequestTopicName, rosToDdsReplyTopicName]
    cases validateFqn (fqName ++ literal "/" ++ service.token) with
    | error e => exact iff_of_false (fun h => by cases h) fun h => by cases h.1
    | ok u => exact ih.trans (and_iff_right rfl).symm

/-- The core a node declares its parameters in. -/
def TopologyNode.coreOr (node : TopologyNode) : ParameterCore := node.core.getD (ParameterCore.new node.fqName)

theorem params_eq {node : TopologyNode} (h : (node.core.isSome || servicesNamed node.fqName) = true) :
    node.params = .ok node.coreOr := by
  rw [TopologyNode.params, TopologyNode.coreOr]
  cases hc : node.core with
  | some core => rfl
  | none =>
    rw [hc, Option.isSome_none, Bool.false_or] at h
    have hservices := createServices_ok_iff.mpr (List.all_eq_true.mp h)
    rw [hservices]
    rfl

theorem of_params_ok {node : TopologyNode} {core : ParameterCore} (h : node.params = .ok core) :
    (node.core.isSome || servicesNamed node.fqName) = true := by
  rw [TopologyNode.params] at h
  cases hc : node.core with
  | some core => rfl
  | none =>
    rw [hc] at h
    obtain ⟨⟨⟩, hservices, -⟩ := bind_eq_ok.mp h
    exact List.all_eq_true.mpr (createServices_ok_iff.mp hservices)

theorem find_coreOr (node : TopologyNode) (name : List UInt8) :
    node.coreOr.values.find? name = none ↔ Undeclared node name := by
  rw [TopologyNode.coreOr, Undeclared]
  cases node.core with
  | none => exact iff_of_true rfl fun core h => by cases h
  | some core =>
    refine ⟨?_, fun h => h core rfl⟩
    rintro h core' ⟨⟩
    exact h

theorem type_of_parameterValue {value : Value} {v : ParameterValue} (h : parameterValue? value = some v) :
    v.type ≠ .notSet := by
  have htypes : ∀ byte : BitVec 8, byte ≠ 0 → (⟨byte⟩ : ParamType) ≠ .notSet :=
    fun byte hne h => hne (congrArg ParamType.byte h)
  cases value with
  | boolean b => cases h; exact htypes 1 (by decide)
  | integer n => cases h; exact htypes 2 (by decide)
  | float bits => cases h; exact htypes 3 (by decide)
  | string s => cases h; exact htypes 4 (by decide)
  | null => cases h
  | array xs => cases h
  | object members => cases h

/-- One parameter of the document: what makes the node take it. -/
structure Takes (node : TopologyNode) (name : List UInt8) (value : Value) : Prop where
  named : (node.core.isSome || servicesNamed node.fqName) = true
  name_ne : name ≠ []
  undeclared : Undeclared node name
  scalar : (parameterValue? value).isSome = true

theorem declareParameter_eq (host : Host) (node : TopologyNode) (name : List UInt8) {value : Value}
    {v : ParameterValue} (h : parameterValue? value = some v) :
    declareParameter host node name value = node.declare host name v := by
  rw [declareParameter, h]

theorem declareParameter_ok (host : Host) {node : TopologyNode} {name : List UInt8} {value : Value}
    (h : Takes node name value) :
    ∃ node', declareParameter host node name value = .ok node' ∧ node'.core.isSome = true ∧
      ∀ k, Undeclared node' k ↔ k ≠ name ∧ Undeclared node k := by
  obtain ⟨v, hv⟩ := Option.isSome_iff_exists.mp h.scalar
  have hfind := (find_coreOr node name).mpr h.undeclared
  obtain ⟨core, hcore, hvalues⟩ : ∃ core, ofParameter (node.coreOr.declare ⟨host.now, true⟩ name v) = .ok core ∧
      core.values = node.coreOr.values.insert name v := by
    rw [ParameterCore.declare, if_neg h.name_ne, hfind]
    simp only [if_pos (type_of_parameterValue hv)]
    exact ⟨_, rfl, rfl⟩
  refine ⟨{ node with core := some core }, ?_, rfl, ?_⟩
  · rw [declareParameter_eq host node name hv, TopologyNode.declare, params_eq h.named]
    change (ofParameter (node.coreOr.declare ⟨host.now, true⟩ name v) >>= _) = _
    rw [hcore]
    rfl
  · intro k
    rw [← find_coreOr, ← find_coreOr]
    change core.values.find? k = none ↔ _
    rw [hvalues]
    by_cases hk : k = name
    · subst hk
      rw [AssocMap.find?_insert_self]
      exact iff_of_false (fun h => by cases h) fun h => h.1 rfl
    · rw [AssocMap.find?_insert_ne _ _ hk]
      exact (and_iff_right hk).symm

theorem takes_of_declareParameter {host : Host} {node node' : TopologyNode} {name : List UInt8} {value : Value}
    (h : declareParameter host node name value = .ok node') : Takes node name value := by
  cases hv : parameterValue? value with
  | none =>
    rw [declareParameter, hv] at h
    cases h
  | some v =>
    rw [declareParameter_eq host node name hv] at h
    obtain ⟨core, hparams, h⟩ := bind_eq_ok.mp h
    obtain ⟨core', hdeclare, -⟩ := bind_eq_ok.mp h
    have hnamed := of_params_ok hparams
    rw [params_eq hnamed] at hparams
    obtain rfl := Except.ok.inj hparams
    rw [ParameterCore.declare] at hdeclare
    by_cases hname : name = []
    · rw [if_pos hname] at hdeclare
      cases hdeclare
    · rw [if_neg hname] at hdeclare
      refine ⟨hnamed, hname, ?_, by rw [hv]; rfl⟩
      rw [← find_coreOr]
      cases hfind : node.coreOr.values.find? name with
      | none => rfl
      | some old =>
        rw [hfind] at hdeclare
        cases hdeclare

theorem acceptsParameters_iff {node : TopologyNode} {members : List (List UInt8 × Value)} :
    acceptsParameters node members = true ↔
      (members.map Prod.fst).Nodup ∧ ∀ m ∈ members, Takes node m.1 m.2 := by
  cases members with
  | nil => simp [acceptsParameters]
  | cons m rest =>
    have hundeclared (name : List UInt8) :
        (node.core.all fun core => (core.values.find? name).isNone) = true ↔ Undeclared node name := by
      rw [Undeclared]
      cases node.core with
      | none => simp
      | some core => simp
    simp only [acceptsParameters, List.isEmpty_cons, Bool.false_or, Bool.and_eq_true, decide_eq_true_eq,
      List.all_eq_true, hundeclared, bne_iff_ne]
    constructor
    · rintro ⟨⟨hnamed, hnodup⟩, hall⟩
      exact ⟨hnodup, fun m hm => ⟨hnamed, (hall m hm).1.1, (hall m hm).1.2, (hall m hm).2⟩⟩
    · rintro ⟨hnodup, hall⟩
      exact ⟨⟨(hall m List.mem_cons_self).named, hnodup⟩,
        fun m hm => ⟨⟨(hall m hm).name_ne, (hall m hm).undeclared⟩, (hall m hm).scalar⟩⟩

/-- The loop over the parameters goes through exactly when the node takes them all. -/
theorem declareParameters_isOk (host : Host) (node : TopologyNode) (members : List (List UInt8 × Value)) :
    (declareParameters host node members).isOk = acceptsParameters node members := by
  induction members generalizing node with
  | nil => rfl
  | cons m rest ih =>
    rw [declareParameters]
    by_cases htakes : Takes node m.1 m.2
    -- the node that goes on has a core, and takes the same parameters but for this name
    · obtain ⟨node', hdeclare, hsome, hundeclared⟩ := declareParameter_ok host htakes
      rw [hdeclare]
      change (declareParameters host node' rest).isOk = _
      have hafter (name : List UInt8) (value : Value) : Takes node' name value ↔ name ≠ m.1 ∧ Takes node name value := by
        constructor
        · intro h
          have hboth := (hundeclared name).mp h.undeclared
          exact ⟨hboth.1, htakes.named, h.name_ne, hboth.2, h.scalar⟩
        · rintro ⟨hne, h⟩
          exact ⟨by rw [hsome, Bool.true_or], h.name_ne, (hundeclared name).mpr ⟨hne, h.undeclared⟩, h.scalar⟩
      rw [ih node', Bool.eq_iff_iff, acceptsParameters_iff, acceptsParameters_iff, List.map_cons, List.nodup_cons,
        List.forall_mem_cons]
      simp only [hafter, List.mem_map, not_exists, not_and]
      constructor
      · rintro ⟨hnodup, hall⟩
        exact ⟨⟨fun x hx heq => (hall x hx).1 heq, hnodup⟩, htakes, fun x hx => (hall x hx).2⟩
      · rintro ⟨⟨hnew, hnodup⟩, -, hall⟩
        exact ⟨hnodup, fun x hx => ⟨hnew x hx, hall x hx⟩⟩
    · have hrefused : acceptsParameters node (m :: rest) = false := by
        rw [← Bool.not_eq_true, acceptsParameters_iff]
        exact fun h => htakes (h.2 m List.mem_cons_self)
      rw [hrefused]
      cases hdeclare : declareParameter host node m.1 m.2 with
      | error e => rfl
      | ok node' => exact absurd (takes_of_declareParameter hdeclare) htakes

theorem reports_buildParameters (host : Host) (node : TopologyNode) (spec : Value) :
    Reports Raised.IsError [.own (acceptsMember node (spec.find? (literal "parameters")))]
      (buildParameters host node spec) := by
  rw [buildParameters]
  cases spec.find? (literal "parameters") with
  | none => rfl
  | some value =>
    cases value with
    | object members =>
      rw [acceptsMember, ← declareParameters_isOk host]
      exact reports_own (onlyErrors_declareParameters host node members)
    | _ => exact .inl ⟨trivial, rfl⟩

theorem reports_nodeSpec (spec : Value) :
    Reports Raised.IsError
      [.own (spec.contains (literal "name")), typed spec (literal "namespace") isString,
        typed spec (literal "name") isString] (nodeSpec spec) := by
  refine Reports.guard trivial fun hname => ?_
  obtain ⟨members, hm⟩ := members_of_contains hname
  refine Reports.bind_cons (reads_string.valueOr hm _) fun namespace_ _ => ?_
  exact Reports.bind_cons (reads_string.fetch hname) fun name _ => rfl

theorem nodeSpec_ok {spec : Value} {namespace_ name : List UInt8} (h : nodeSpec spec = .ok (namespace_, name)) :
    textOf spec (literal "namespace") (literal "/") = namespace_ ∧ textOf spec (literal "name") [] = name := by
  rw [nodeSpec] at h
  split_ifs at h with hname
  obtain ⟨members, hm⟩ := members_of_contains hname
  obtain ⟨ns, hns, h⟩ := bind_eq_ok.mp h
  obtain ⟨n, hn, h⟩ := bind_eq_ok.mp h
  cases h
  exact ⟨textOf_of_valueOr hm hns, textOf_of_fetch hname hn⟩

theorem reports_createNode (host : Host) (spec : Value) :
    Reports Raised.IsError
      [typed spec (literal "class") isString, .foreign (classReports host spec), .own (nodeOf host spec).isSome]
      (createNode host spec (textOf spec (literal "name") []) (textOf spec (literal "namespace") (literal "/"))) := by
  rw [createNode, classReports, nodeOf]
  cases hc : spec.contains (literal "class") with
  | true =>
    refine Reports.bind_cons (reads_string.fetch hc) fun cls hread => ?_
    rw [textOf_of_fetch hc hread]
    rcases host.createByName cls _ _ with _ | (e | node)
    · exact .inl ⟨trivial, rfl⟩
    · by_cases he : e.IsError
      · refine .inl ⟨he, ?_⟩
        simp only [Bool.not_true, Bool.false_or, he, decide_true]
        rfl
      · refine .inr ⟨he, ?_⟩
        simp only [Bool.not_true, Bool.false_or, he, decide_false]
        rfl
    · rfl
  | false =>
    -- a plain node: only its names can be refused
    have htyped : typed spec (literal "class") isString = .foreign true := by
      rw [typed, find_of_not_contains hc]
      rfl
    rw [htyped]
    change Reports Raised.IsError [.own _] _
    cases nodeNames (textOf spec (literal "name") []) (textOf spec (literal "namespace") (literal "/")) with
    | error message => exact .inl ⟨trivial, rfl⟩
    | ok names => rfl

theorem createNode_ok {host : Host} {spec : Value} {node : TopologyNode}
    (h : createNode host spec (textOf spec (literal "name") []) (textOf spec (literal "namespace") (literal "/")) =
      .ok node) : nodeOf host spec = some node := by
  rw [createNode] at h
  rw [nodeOf]
  cases hc : spec.contains (literal "class") with
  | true =>
    rw [hc, if_pos rfl] at h
    obtain ⟨cls, hread, h⟩ := bind_eq_ok.mp h
    rw [textOf_of_fetch hc hread, if_pos rfl]
    cases hcreate : host.createByName cls (textOf spec (literal "name") [])
        (textOf spec (literal "namespace") (literal "/")) with
    | none =>
      rw [hcreate] at h
      cases h
    | some outcome =>
      rw [hcreate] at h
      cases h
      rfl
  | false =>
    rw [hc, if_neg Bool.false_ne_true] at h
    obtain ⟨names, hnames, h⟩ := bind_eq_ok.mp h
    cases h
    rw [of_ofNames_ok hnames]
    rfl

theorem follows_buildNode (host : Host) {w₀ : World} (spec : Value) (w : World) (hw : Quiet w₀ w) :
    Follows Raised.IsError (Quiet w₀) (nodeChecks host spec) (buildNode host spec w) := by
  refine Follows.bind (follows_lift (reports_nodeSpec spec) hw) fun names w hnames hw => ?_
  obtain ⟨namespace_, name⟩ := names
  obtain ⟨rfl, rfl⟩ := nodeSpec_ok (of_lift_ok hnames)
  refine Follows.bind (follows_lift (reports_createNode host spec) hw) fun node w hnode hw => ?_
  rw [createNode_ok (of_lift_ok hnode)]
  -- adding the node to the executor checks nothing
  refine Follows.bind_quiet rfl ?_
  refine Follows.bind_cons (follows_lift (reports_buildParameters host node spec) hw) fun node w _ hw => ?_
  refine Follows.bind (follows_mapM (follows_buildPublisher host _ _) _ hw) fun publishers w _ hw => ?_
  exact Follows.bind_last (follows_mapM (follows_buildSubscription host _ _) _ hw) fun subscriptions w hw => ⟨hw, rfl⟩

theorem follows_buildTopology (host : Host) (text : List UInt8) (w₀ : World) :
    Follows Raised.IsError (Quiet w₀) (topologyChecks host text) (buildTopology host text w₀) := by
  rw [topologyChecks, buildTopology]
  cases host.jsonFromDoc text with
  | error what => exact ⟨rfl, .inl ⟨trivial, rfl⟩⟩
  | ok doc =>
    dsimp only
    cases doc.find? (literal "nodes") with
    | none => exact ⟨rfl, .inl ⟨trivial, rfl⟩⟩
    | some value =>
      cases value with
      | array nodes =>
        cases nodes with
        | nil => exact ⟨rfl, .inl ⟨trivial, rfl⟩⟩
        | cons spec specs =>
          have hnodes := follows_mapM (follows_buildNode host) (spec :: specs) (rfl : Quiet w₀ w₀)
          exact ⟨hnodes.1, hnodes.2.cons_true⟩
      | _ => exact ⟨rfl, .inl ⟨trivial, rfl⟩⟩

end Nodes

section Construction

theorem startPublisher_ok (pub : RawPublisher) (w : World) : ∃ w', startPublisher pub w = .ok () w' := by
  rw [startPublisher]
  split_ifs
  · exact ⟨_, rfl⟩
  · exact ⟨_, rfl⟩

theorem startPublishing_ok (entries : List NodeEntry) (w : World) : ∃ w', startPublishing entries w = .ok () w' := by
  rw [startPublishing]
  generalize entries.flatMap NodeEntry.publishers = pubs
  induction pubs generalizing w with
  | nil => exact ⟨w, rfl⟩
  | cons pub pubs ih =>
    obtain ⟨w', hstart⟩ := startPublisher_ok pub w
    obtain ⟨w'', hrest⟩ := ih w'
    exact ⟨w'', (bind_ok hstart).trans hrest⟩

/-- The constructor raises what building the nodes raises: publishing starts only after it. -/
theorem constructGraphExecutor_error_iff {host : Host} {text : List UInt8} {w₀ w : World} {e : Raised} :
    constructGraphExecutor host text w₀ = .error e w ↔ buildTopology host text w₀ = .error e w := by
  cases hbuild : buildTopology host text w₀ with
  | error e' w' => rw [constructGraphExecutor, bind_error hbuild]
  | ok entries w' =>
    obtain ⟨w'', hstart⟩ := startPublishing_ok entries w'
    rw [constructGraphExecutor, bind_ok hbuild]
    refine iff_of_false ?_ (fun h => by cases h)
    rw [bind_ok hstart]
    exact fun h => by cases h

/-- A document the constructor rejects is reported as an error of this library, with nothing published, exactly
when each member of a wrong type stands behind a fault the constructor looks for itself. -/
theorem topology_errors_reported_iff (host : Host) (text : List UInt8) (w₀ : World) :
    (∀ e w, constructGraphExecutor host text w₀ = .error e w → e.IsError ∧ w.written = w₀.written) ↔
      Guarded (topologyChecks host text) := by
  -- everything that can raise runs before the first payload is written
  have hfollows := follows_buildTopology host text w₀
  simp only [constructGraphExecutor_error_iff]
  rw [← hfollows.raises_own_iff]
  constructor
  · exact fun h e w hraise => (h e w hraise).1
  · intro h e w hraise
    have hquiet := hfollows.1
    rw [hraise] at hquiet
    exact ⟨h e w hraise, hquiet⟩

/-- A host that has no class registered, and the document it reads. -/
def plainHost (doc : Value) : Host := ⟨fun _ => .ok doc, fun _ _ _ => none, true, 0⟩

/-- `{"nodes": [{"name": 5}]}` -/
def numberForName : Value := .object [(literal "nodes", .array [.object [(literal "name", .integer 5)]])]

theorem number_for_name_raises_type_error :
    constructGraphExecutor (plainHost numberForName) (literal "\x7b\"nodes\": [\x7b\"name\": 5\x7d]\x7d") {} =
        .error (.json (.notOfType .string .number)) {} ∧
      ¬ ∀ e w, constructGraphExecutor (plainHost numberForName)
          (literal "\x7b\"nodes\": [\x7b\"name\": 5\x7d]\x7d") {} = .error e w → e.IsError ∧ w.written = [] := by
  have hraise (text : List UInt8) : constructGraphExecutor (plainHost numberForName) text {} =
      .error (.json (.notOfType .string .number)) {} := rfl
  refine ⟨hraise _, fun h => ?_⟩
  exact (h _ _ (hraise _)).1

end Construction

end Rcllite.Topology
