import Rcllite.ExecutorModel
import Rcllite.Lib.Utf8

/-! `Node::params`, which builds the `ParameterCore` of a node on first use, and
the constructor that registers its six services on the node one by one while
any endpoint it creates may still raise. -/
namespace Rcllite
open Transition
open Utf8 (literal)

inductive ParameterService where
  | describeParameters
  | getParameterTypes
  | getParameters
  | listParameters
  | setParameters
  | setParametersAtomically
deriving DecidableEq, Repr

/-- In the order of the constructor. -/
def ParameterService.all : List ParameterService :=
  [.describeParameters, .getParameterTypes, .getParameters, .listParameters, .setParameters,
    .setParametersAtomically]

/-- What the name of the service adds to the name of the node and a slash. -/
def ParameterService.token : ParameterService → List UInt8
  | .describeParameters => literal "describe_parameters"
  | .getParameterTypes => literal "get_parameter_types"
  | .getParameters => literal "get_parameters"
  | .listParameters => literal "list_parameters"
  | .setParameters => literal "set_parameters"
  | .setParametersAtomically => literal "set_parameters_atomically"

/-- The endpoints the constructor creates; the two of a service are created by
the constructor of `Service`. -/
inductive ParameterEndpoint where
  | eventsPublisher
  | requestReader (service : ParameterService)
  | replyWriter (service : ParameterService)
deriving DecidableEq, Repr

/-- An entity of a node: one of the user's, or a parameter service whose
callback refers to the `core`-th `ParameterCore` of the process. -/
inductive NodeEntity (ε : Type) where
  | user (e : ε)
  | parameter (service : ParameterService) (core : ℕ)
deriving DecidableEq

/-- A node, its `params_`, and how many cores have been constructed or begun. -/
structure ParamNode (ε : Type) where
  state : NodeState (NodeEntity ε)
  params : Option ℕ
  begun : ℕ

variable {ε : Type}

def NodeState.addEntity {α : Type} (n : NodeState α) (e : α) : NodeState α :=
  ⟨n.entities ++ [e], n.entityEpoch + 1, true⟩

def NodeState.removeEntity {α : Type} [DecidableEq α] (n : NodeState α) (e : α) : NodeState α :=
  ⟨n.entities.filter (fun x => x ≠ e), n.entityEpoch + 1, true⟩

/-- The services from some point of the constructor on; `false` when an
endpoint raised. -/
def registerServices (raises : ParameterEndpoint → Bool) (core : ℕ) :
    List ParameterService → NodeState (NodeEntity ε) → NodeState (NodeEntity ε) × Bool
  | [], n => (n, true)
  | service :: rest, n =>
    if raises (.requestReader service) then (n, false)
    else if raises (.replyWriter service) then (n, false)
    else registerServices raises core rest (n.addEntity (.parameter service core))

/-- `ParameterCore::Impl::Impl` -/
def ParameterCore.construct (raises : ParameterEndpoint → Bool) (core : ℕ) (n : NodeState (NodeEntity ε)) :
    NodeState (NodeEntity ε) × Bool :=
  if raises .eventsPublisher then (n, false) else registerServices raises core ParameterService.all n

/-- `Node::params`; `false` when it raised. -/
def ParamNode.callParams (raises : ParameterEndpoint → Bool) (x : ParamNode ε) : ParamNode ε × Bool :=
  match x.params with
  | some _ => (x, true)
  | none =>
    match ParameterCore.construct raises x.begun x.state with
    | (n, true) => (⟨n, some x.begun, x.begun + 1⟩, true)
    | (n, false) => (⟨n, none, x.begun + 1⟩, false)

/-- The six services of a core, as the constructor registers them. -/
def parameterEntities (core : ℕ) : List (NodeEntity ε) :=
  ParameterService.all.map (fun service => .parameter service core)

/-- An endpoint raises before the first service is registered. -/
def RaisesEarly (raises : ParameterEndpoint → Bool) : Prop :=
  raises .eventsPublisher = true ∨ raises (.requestReader .describeParameters) = true ∨
    raises (.replyWriter .describeParameters) = true

/-- Every registered parameter service refers to the core the node holds. -/
def ParamNode.Live (x : ParamNode ε) : Prop :=
  ∀ service core, .parameter service core ∈ x.state.entities → x.params = some core

/-- A raising call left the entities alone, made no callback refer to the
destroyed core, and the call that succeeds later leaves exactly its six
services with them. -/
structure ParamNode.Intact (x : ParamNode ε) (raises : ParameterEndpoint → Bool) : Prop where
  entities : (x.callParams raises).1.state.entities = x.state.entities
  live : x.Live → (x.callParams raises).1.Live
  later : ∀ raises', ((x.callParams raises).1.callParams raises').2 = true →
    ((x.callParams raises).1.callParams raises').1.state.entities =
      x.state.entities ++ parameterEntities (x.begun + 1)

section Construct
variable {raises : ParameterEndpoint → Bool}

/-- The loop appends a part of the services from the front, all of them exactly
when it completes. -/
theorem registerServices_spec (raises : ParameterEndpoint → Bool) (core : ℕ)
    (services : List ParameterService) (n : NodeState (NodeEntity ε)) :
    ∃ done, done <+: services ∧
      (registerServices raises core services n).1.entities =
        n.entities ++ done.map (fun service => .parameter service core) ∧
      ((registerServices raises core services n).2 = true → done = services) := by
  induction services generalizing n with
  | nil => exact ⟨[], List.prefix_rfl, (List.append_nil _).symm, fun _ => rfl⟩
  | cons service rest ih =>
    rw [registerServices]
    split_ifs
    · exact ⟨[], List.nil_prefix, (List.append_nil _).symm, nofun⟩
    · exact ⟨[], List.nil_prefix, (List.append_nil _).symm, nofun⟩
    · obtain ⟨done, hstart, hentities, hall⟩ := ih (n.addEntity (.parameter service core))
      refine ⟨service :: done, List.cons_prefix_cons.mpr ⟨rfl, hstart⟩, ?_, fun h => by rw [hall h]⟩
      rw [hentities, NodeState.addEntity, List.append_assoc, List.map_cons, List.singleton_append]

theorem registerServices_quiet (h : ∀ endpoint, raises endpoint ≠ true) (core : ℕ)
    (services : List ParameterService) (n : NodeState (NodeEntity ε)) :
    (registerServices raises core services n).2 = true := by
  induction services generalizing n with
  | nil => rfl
  | cons service rest ih =>
    rw [registerServices, if_neg (h _), if_neg (h _)]
    exact ih _

theorem construct_early (h : RaisesEarly raises) (core : ℕ) (n : NodeState (NodeEntity ε)) :
    ParameterCore.construct raises core n = (n, false) := by
  rw [ParameterCore.construct]
  rcases h with h | h | h
  · rw [if_pos h]
  · rw [ParameterService.all, registerServices, if_pos h, ite_self]
  · rw [ParameterService.all, registerServices, if_pos h, ite_self, ite_self]

/-- Past that point the first service is on the node for good. -/
theorem construct_late (h : ¬ RaisesEarly raises) (core : ℕ) (n : NodeState (NodeEntity ε)) :
    n.entities ≠ (ParameterCore.construct raises core n).1.entities := by
  simp only [RaisesEarly, not_or] at h
  rw [ParameterCore.construct, if_neg h.1, ParameterService.all, registerServices, if_neg h.2.1, if_neg h.2.2]
  obtain ⟨done, -, hentities, -⟩ := registerServices_spec raises core
    [.getParameterTypes, .getParameters, .listParameters, .setParameters, .setParametersAtomically]
    (n.addEntity (.parameter .describeParameters core))
  intro heq
  have hlen := congrArg List.length (heq.trans hentities)
  simp only [NodeState.addEntity, List.length_append, List.length_cons, List.length_nil] at hlen
  omega

theorem construct_completes {core : ℕ} {n : NodeState (NodeEntity ε)}
    (h : (ParameterCore.construct raises core n).2 = true) :
    (ParameterCore.construct raises core n).1.entities = n.entities ++ parameterEntities core := by
  unfold ParameterCore.construct at h ⊢
  split_ifs at h ⊢
  obtain ⟨done, -, hentities, hall⟩ := registerServices_spec raises core ParameterService.all n
  rw [hentities, hall h, parameterEntities]

end Construct

section Params
variable {raises : ParameterEndpoint → Bool} {x : ParamNode ε}

/-- The two ways `params()` can go on a node without a core. -/
theorem callParams_cases (raises : ParameterEndpoint → Bool) (hnone : x.params = none) :
    ((ParameterCore.construct raises x.begun x.state).2 = true ∧
      x.callParams raises =
        (⟨(ParameterCore.construct raises x.begun x.state).1, some x.begun, x.begun + 1⟩, true)) ∨
    ((ParameterCore.construct raises x.begun x.state).2 = false ∧
      x.callParams raises =
        (⟨(ParameterCore.construct raises x.begun x.state).1, none, x.begun + 1⟩, false)) := by
  rw [ParamNode.callParams, hnone]
  rcases ParameterCore.construct raises x.begun x.state with ⟨n, _ | _⟩
  · exact .inr ⟨rfl, rfl⟩
  · exact .inl ⟨rfl, rfl⟩

theorem callParams_of_some {core : ℕ} (h : x.params = some core) : x.callParams raises = (x, true) := by
  rw [ParamNode.callParams, h]

/-- A call raises only on a node without a core, and leaves it without one. -/
theorem callParams_raised (h : (x.callParams raises).2 = false) :
    x.params = none ∧ x.callParams raises =
      (⟨(ParameterCore.construct raises x.begun x.state).1, none, x.begun + 1⟩, false) := by
  cases hp : x.params with
  | some core =>
    rw [callParams_of_some hp] at h
    cases h
  | none =>
    rcases callParams_cases raises hp with ⟨-, heq⟩ | ⟨-, heq⟩
    · rw [heq] at h
      cases h
    · exact ⟨rfl, heq⟩

theorem callParams_endpoint (h : (x.callParams raises).2 = false) : ∃ endpoint, raises endpoint = true := by
  by_contra hquiet
  have hall : ∀ endpoint, raises endpoint ≠ true := fun endpoint hraises => hquiet ⟨endpoint, hraises⟩
  obtain ⟨hnone, -⟩ := callParams_raised h
  rcases callParams_cases raises hnone with ⟨-, heq⟩ | ⟨hfailed, -⟩
  · rw [heq] at h
    cases h
  · rw [ParameterCore.construct, if_neg (hall _), registerServices_quiet hall] at hfailed
    cases hfailed

theorem callParams_early (hnone : x.params = none) (h : RaisesEarly raises) :
    x.callParams raises = (⟨x.state, none, x.begun + 1⟩, false) := by
  rw [ParamNode.callParams, hnone, construct_early h]

/-- A call that succeeds on a node without a core registers the six services. -/
theorem callParams_succeeded (hnone : x.params = none) (h : (x.callParams raises).2 = true) :
    (x.callParams raises).1.params = some x.begun ∧
      (x.callParams raises).1.state.entities = x.state.entities ++ parameterEntities x.begun := by
  rcases callParams_cases raises hnone with ⟨hdone, heq⟩ | ⟨-, heq⟩
  · rw [heq]
    exact ⟨rfl, construct_completes hdone⟩
  · rw [heq] at h
    cases h

theorem intact_of_early (hnone : x.params = none) (h : RaisesEarly raises) : x.Intact raises := by
  have heq := callParams_early hnone h
  refine ⟨by rw [heq], ?_, ?_⟩
  · intro hlive service core hmem
    rw [heq] at hmem
    have hcore := (hlive service core hmem).symm.trans hnone
    cases hcore
  · intro raises' hdone
    rw [heq] at hdone ⊢
    exact (callParams_succeeded rfl hdone).2

end Params

section Runs
variable [DecidableEq ε]

inductive ParamNodeAction (ε : Type) where
  | addEntity (e : ε)
  | removeEntity (e : NodeEntity ε)
  | params (raises : ParameterEndpoint → Bool)

/-- A node over its life: what it is made of, and calls of `params()` any of
whose endpoints may raise. -/
def ParamNode.apply (x : ParamNode ε) : ParamNodeAction ε → ParamNode ε
  | .addEntity e => { x with state := x.state.addEntity (.user e) }
  | .removeEntity e => { x with state := x.state.removeEntity e }
  | .params raises => (x.callParams raises).1

def ParamNode.fresh : ParamNode ε := ⟨⟨[], 0, false⟩, none, 0⟩

def paramNodeSystem (ε : Type) [DecidableEq ε] : System (ParamNode ε) (ParamNodeAction ε) where
  init x := x = .fresh
  step x a x' := x' = x.apply a

/-- Where a call of `params()` has a core to build, some endpoint raises only if
one does before the first registration. -/
def RaisesOnlyEarly (x : ParamNode ε) : ParamNodeAction ε → Prop
  | .params raises => x.params = none → (∃ endpoint, raises endpoint = true) → RaisesEarly raises
  | _ => True

theorem live_step {x : ParamNode ε} (hlive : x.Live) {a : ParamNodeAction ε} (ha : RaisesOnlyEarly x a) :
    (x.apply a).Live := by
  cases a with
  | addEntity e =>
    intro service core hmem
    rcases List.mem_append.mp hmem with hmem | hmem
    · exact hlive service core hmem
    · cases List.mem_singleton.mp hmem
  | removeEntity e =>
    intro service core hmem
    exact hlive service core (List.mem_of_mem_filter hmem)
  | params raises =>
    rw [ParamNode.apply]
    cases hp : x.params with
    | some core =>
      rw [callParams_of_some hp]
      exact hlive
    | none =>
      cases hdone : (x.callParams raises).2 with
      | false => exact (intact_of_early hp (ha hp (callParams_endpoint hdone))).live hlive
      | true =>
        obtain ⟨hcore, hentities⟩ := callParams_succeeded hp hdone
        intro service core hmem
        rw [hcore]
        rw [hentities] at hmem
        rcases List.mem_append.mp hmem with hmem | hmem
        · have hcore' := (hlive service core hmem).symm.trans hp
          cases hcore'
        · obtain ⟨_, -, heq⟩ := List.mem_map.mp hmem
          cases heq
          rfl

theorem live_of_reachable {x : ParamNode ε} (h : ((paramNodeSystem ε).restrict RaisesOnlyEarly).Reachable x) :
    x.Live := by
  refine h.invariant ParamNode.Live ?_ ?_
  · rintro s rfl service core hmem
    cases hmem
  · rintro s a s' - hlive ⟨ha, rfl⟩
    exact live_step hlive ha

end Runs

/-- A call of `params()` that raises leaves the node intact exactly when the
endpoint that raised comes before the first registration; and where every
raising call is like that, no callback ever refers to a destroyed core. -/
theorem failed_params_intact_iff [DecidableEq ε] :
    (∀ (x : ParamNode ε) (raises : ParameterEndpoint → Bool), (x.callParams raises).2 = false →
      (x.Intact raises ↔ RaisesEarly raises)) ∧
    (∀ x : ParamNode ε, ((paramNodeSystem ε).restrict RaisesOnlyEarly).Reachable x → x.Live) := by
  refine ⟨fun x raises h => ?_, fun x h => live_of_reachable h⟩
  obtain ⟨hnone, heq⟩ := callParams_raised h
  refine ⟨fun hintact => ?_, intact_of_early hnone⟩
  by_contra hlate
  have hentities := hintact.entities
  rw [heq] at hentities
  exact construct_late hlate x.begun x.state hentities.symm

/-- The request reader of one service fails. -/
def raisesAt (service : ParameterService) (endpoint : ParameterEndpoint) : Bool :=
  endpoint = .requestReader service

theorem failed_params_intact_iff_describe :
    ((ParamNode.fresh : ParamNode ℕ).callParams (raisesAt .describeParameters)).2 = false ∧
      (ParamNode.fresh : ParamNode ℕ).Intact (raisesAt .describeParameters) := by
  refine ⟨by decide, ?_⟩
  exact (failed_params_intact_iff.1 .fresh (raisesAt .describeParameters) (by decide)).mpr
    (.inr (.inl (by decide)))

/-- The last service of a fresh node fails: five services refer to the core
that is gone, and the next call makes eleven of them. -/
theorem half_built_core_stays :
    ((ParamNode.fresh : ParamNode ℕ).callParams (raisesAt .setParametersAtomically)).2 = false ∧
      ¬ (ParamNode.fresh : ParamNode ℕ).Intact (raisesAt .setParametersAtomically) ∧
      ¬ ((ParamNode.fresh : ParamNode ℕ).callParams (raisesAt .setParametersAtomically)).1.Live ∧
      (((ParamNode.fresh : ParamNode ℕ).callParams (raisesAt .setParametersAtomically)).1.callParams
        (fun _ => false)).1.state.entities.length = 11 := by
  refine ⟨by decide, ?_, ?_, by decide⟩
  · intro hintact
    exact absurd hintact.entities (by decide)
  · intro hlive
    exact absurd (hlive .describeParameters 0 (by decide)) (by decide)

end Rcllite
