import Mathlib.Algebra.Order.Ring.Nat
import Mathlib.Logic.Function.Basic
import Mathlib.Data.List.Nodup
import Rcllite.Lib.Transition

/-! `rcl::Executor` and the part of `rcl::Node` it watches. The executor thread
and any number of threads that change entities or nodes are interleaved at
their critical sections; `nodes_mtx_` is explicit, `entities_mtx_` is held for
single steps only. -/
namespace Rcllite
open Transition

/-- What `entities_mtx_` protects, and the node's change guard. -/
structure NodeState (ε : Type) where
  entities : List ε
  entityEpoch : BitVec 64
  changeGuard : Bool

/-- Condition handles are unique: one for each change guard and one for each
entity. -/
inductive Cond (ν ε : Type) where
  | changeGuard (n : ν)
  | entity (e : ε)
deriving DecidableEq

structure Attached (ν ε : Type) where
  cond : Cond ν ε
  node : ν
  entity : Option ε

/-- `attached_`, `next_attach_id_` and what the waitset holds besides the two
guards of the executor itself. -/
structure Attachments (ν ε : Type) where
  attached : List (ℕ × Attached ν ε)
  waitset : List (Cond ν ε × ℕ)
  nextAttachId : ℕ

/-- `std::map<dds_entity_t, Attached>`, keyed by the condition. -/
abbrev Desired (ν ε : Type) := List (Cond ν ε × Attached ν ε)

section Reconcile
variable {ν ε : Type} [DecidableEq ν] [DecidableEq ε]

def Desired.set (d : Desired ν ε) (att : Attached ν ε) : Desired ν ε :=
  (att.cond, att) :: d.filter (fun x => x.1 ≠ att.cond)

def Desired.has (d : Desired ν ε) (c : Cond ν ε) : Prop := c ∈ d.map Prod.fst

instance (d : Desired ν ε) (c : Cond ν ε) : Decidable (d.has c) :=
  inferInstanceAs (Decidable (c ∈ d.map Prod.fst))

/-- One turn of the first loop of `reconcile_locked`, for the list of entities
that was read. -/
def Desired.addNode (d : Desired ν ε) (n : ν) (entities : List ε) : Desired ν ε :=
  entities.foldl (fun d e => d.set ⟨.entity e, n, some e⟩) (d.set ⟨.changeGuard n, n, none⟩)

namespace Attachments

def new : Attachments ν ε := ⟨[], [], 2⟩

/-- Detach conditions that dropped out of the desired set. -/
def detachStale (A : Attachments ν ε) (d : Desired ν ε) : Attachments ν ε :=
  let stale := A.attached.filter (fun x => ¬ d.has x.2.cond)
  { A with
    attached := A.attached.filter (fun x => d.has x.2.cond)
    waitset := A.waitset.filter (fun w => w.1 ∉ stale.map (fun x => x.2.cond)) }

/-- `++next_attach_id_`, attach, and record the attachment. -/
def attach (A : Attachments ν ε) (att : Attached ν ε) : Attachments ν ε where
  attached := (A.nextAttachId + 1, att) :: A.attached
  waitset := (att.cond, A.nextAttachId + 1) :: A.waitset
  nextAttachId := A.nextAttachId + 1

/-- Attach conditions not yet attached; every attach call succeeds. -/
def attachNew : Desired ν ε → List (Cond ν ε) → Attachments ν ε → Attachments ν ε
  | [], _, A => A
  | (c, att) :: rest, current, A =>
    if c ∈ current then attachNew rest current A else attachNew rest (c :: current) (A.attach att)

/-- The rest of `reconcile_locked`, once the desired set is known. -/
def apply (A : Attachments ν ε) (d : Desired ν ε) : Attachments ν ε :=
  attachNew d (A.attached.map (fun x => x.2.cond)) (A.detachStale d)

def conds (A : Attachments ν ε) : List (Cond ν ε) := A.waitset.map Prod.fst

end Attachments

end Reconcile

/-- Whose call runs `reconcile_locked`. -/
inductive Caller where
  | executor
  | addNode
  | removeNode
deriving DecidableEq

/-- What the thread that holds `nodes_mtx_` is about to do. -/
inductive Holder (ν ε : Type) where
  | free
  | checking (rest : List ν)                                        -- the epoch check
  | reconciling (c : Caller) (rest : List ν) (d : Desired ν ε)      -- next: `node->entities()`
  | reading (c : Caller) (n : ν) (rest : List ν) (d : Desired ν ε)  -- next: `node->entity_epoch()`
  | absorbing (rest : List ν)                                       -- taking change guards

/-- Where the spinning thread is. -/
inductive Pc where
  | start                        -- before `wait_and_process`, or between two of them
  | locked                       -- inside one of its own critical sections
  | waiting                      -- in `dds_waitset_wait`
  | dispatching (ids : List ℕ)   -- over the triggered attachments

structure ExecState (ν ε : Type) where
  node : ν → NodeState ε
  unfinished : ν → ℕ             -- entity changes whose guard trigger is still to come
  nodes : List ν
  nodeEpochs : ν → Option (BitVec 64)
  attachments : Attachments ν ε
  cancelGuard : Bool
  wakeGuard : Bool
  unfinishedWakes : ℕ            -- `add_node` calls that still have to trigger the wake guard
  holder : Holder ν ε
  pc : Pc

inductive ExecAction (ν ε : Type) where
  | addEntity (n : ν) (e : ε)
  | removeEntity (n : ν) (e : ε)
  | triggerChange (n : ν)
  | addNode (n : ν)
  | removeNode (n : ν)
  | triggerWake
  | cancel
  | readEntities
  | readEpoch
  | apply
  | enter
  | check
  | wait
  | timeout
  | wake (ids : List ℕ)
  | dispatch
  | beginAbsorb
  | absorb
  | leave

namespace ExecState
variable {ν ε : Type} [DecidableEq ν] [DecidableEq ε]

def setNode (s : ExecState ν ε) (n : ν) (st : NodeState ε) : ExecState ν ε :=
  { s with node := Function.update s.node n st }

/-- The critical section of `add_entity` and `remove_entity`. -/
def update (s : ExecState ν ε) (n : ν) (entities : List ε) : ExecState ν ε :=
  { s.setNode n { s.node n with entities := entities, entityEpoch := (s.node n).entityEpoch + 1 } with
    unfinished := Function.update s.unfinished n (s.unfinished n + 1) }

def setGuard (s : ExecState ν ε) (n : ν) (b : Bool) : ExecState ν ε :=
  s.setNode n { s.node n with changeGuard := b }

/-- `change_guard_->trigger()`, the second half of an entity change. -/
def triggerChange (s : ExecState ν ε) (n : ν) : ExecState ν ε :=
  { s.setGuard n true with unfinished := Function.update s.unfinished n (s.unfinished n - 1) }

/-- `add_node` up to its call of `reconcile_locked`. -/
def addNode (s : ExecState ν ε) (n : ν) : ExecState ν ε :=
  if n ∈ s.nodes then { s with holder := .reconciling .addNode s.nodes [] }
  else
    { s with
      nodes := s.nodes ++ [n]
      nodeEpochs := Function.update s.nodeEpochs n none
      holder := .reconciling .addNode (s.nodes ++ [n]) [] }

def removeNode (s : ExecState ν ε) (n : ν) : ExecState ν ε :=
  { s with
    nodes := s.nodes.filter (fun m => m ≠ n)
    nodeEpochs := Function.update s.nodeEpochs n none
    holder := .reconciling .removeNode (s.nodes.filter (fun m => m ≠ n)) [] }

/-- `reconcile_locked` is done; the caller carries on. -/
def finish (s : ExecState ν ε) (d : Desired ν ε) : Caller → ExecState ν ε
  | .executor => { s with attachments := s.attachments.apply d, holder := .free, pc := .waiting }
  | .addNode =>
    { s with
      attachments := s.attachments.apply d
      holder := .free
      unfinishedWakes := s.unfinishedWakes + 1 }
  | .removeNode =>
    { s with attachments := s.attachments.apply d, holder := .free, wakeGuard := true }

/-- Entering `wait_and_process`: without attachments there is nothing to
compare. -/
def enter (s : ExecState ν ε) : ExecState ν ε :=
  if s.attachments.attached.isEmpty ∧ ¬ s.nodes.isEmpty then
    { s with holder := .reconciling .executor s.nodes [], pc := .locked }
  else { s with holder := .checking s.nodes, pc := .locked }

/-- One comparison of the epoch check. -/
def check (s : ExecState ν ε) (n : ν) (rest : List ν) : ExecState ν ε :=
  if s.nodeEpochs n = some (s.node n).entityEpoch then { s with holder := .checking rest }
  else { s with holder := .reconciling .executor s.nodes [] }

/-- One triggered attachment; an entity's own `dispatch` is other code. -/
def dispatch (s : ExecState ν ε) (id : ℕ) (rest : List ℕ) : ExecState ν ε :=
  if id = 1 then { s with cancelGuard := false, pc := .dispatching rest }
  else if id = 2 then { s with wakeGuard := false, pc := .dispatching rest }
  else { s with pc := .dispatching rest }

end ExecState

section System
variable {ν ε : Type} [DecidableEq ν] [DecidableEq ε]

inductive ExecStep : ExecState ν ε → ExecAction ν ε → ExecState ν ε → Prop
  | addEntity {s : ExecState ν ε} (n : ν) (e : ε) :
      ExecStep s (.addEntity n e) (s.update n ((s.node n).entities ++ [e]))
  | removeEntity {s : ExecState ν ε} (n : ν) (e : ε) :
      ExecStep s (.removeEntity n e) (s.update n ((s.node n).entities.filter (fun x => x ≠ e)))
  | triggerChange {s : ExecState ν ε} (n : ν) (h : 0 < s.unfinished n) :
      ExecStep s (.triggerChange n) (s.triggerChange n)
  | addNode {s : ExecState ν ε} (n : ν) (hl : s.holder = .free) : ExecStep s (.addNode n) (s.addNode n)
  | removeNode {s : ExecState ν ε} (n : ν) (hl : s.holder = .free) :
      ExecStep s (.removeNode n) (s.removeNode n)
  | triggerWake {s : ExecState ν ε} (h : 0 < s.unfinishedWakes) :
      ExecStep s .triggerWake { s with wakeGuard := true, unfinishedWakes := s.unfinishedWakes - 1 }
  | cancel {s : ExecState ν ε} : ExecStep s .cancel { s with cancelGuard := true }
  -- the two reads of one node inside `reconcile_locked` take `entities_mtx_` separately
  | readEntities {s : ExecState ν ε} (c : Caller) (n : ν) (rest : List ν) (d : Desired ν ε)
      (hl : s.holder = .reconciling c (n :: rest) d) :
      ExecStep s .readEntities { s with holder := .reading c n rest (d.addNode n (s.node n).entities) }
  | readEpoch {s : ExecState ν ε} (c : Caller) (n : ν) (rest : List ν) (d : Desired ν ε)
      (hl : s.holder = .reading c n rest d) :
      ExecStep s .readEpoch
        { s with
          nodeEpochs := Function.update s.nodeEpochs n (some (s.node n).entityEpoch)
          holder := .reconciling c rest d }
  | apply {s : ExecState ν ε} (c : Caller) (d : Desired ν ε) (hl : s.holder = .reconciling c [] d) :
      ExecStep s .apply (s.finish d c)
  | enter {s : ExecState ν ε} (hp : s.pc = .start) (hl : s.holder = .free) : ExecStep s .enter s.enter
  | check {s : ExecState ν ε} (n : ν) (rest : List ν) (hl : s.holder = .checking (n :: rest)) :
      ExecStep s .check (s.check n rest)
  | wait {s : ExecState ν ε} (hl : s.holder = .checking []) :
      ExecStep s .wait { s with holder := .free, pc := .waiting }
  | timeout {s : ExecState ν ε} (hp : s.pc = .waiting) : ExecStep s .timeout { s with pc := .start }
  | wake {s : ExecState ν ε} (ids : List ℕ) (hp : s.pc = .waiting) :
      ExecStep s (.wake ids) { s with pc := .dispatching ids }
  | dispatch {s : ExecState ν ε} (id : ℕ) (rest : List ℕ) (hp : s.pc = .dispatching (id :: rest))
      (hl : s.holder = .free) : ExecStep s .dispatch (s.dispatch id rest)
  | beginAbsorb {s : ExecState ν ε} (hp : s.pc = .dispatching []) (hl : s.holder = .free) :
      ExecStep s .beginAbsorb { s with holder := .absorbing s.nodes, pc := .locked }
  | absorb {s : ExecState ν ε} (n : ν) (rest : List ν) (hl : s.holder = .absorbing (n :: rest)) :
      ExecStep s .absorb { s.setGuard n false with holder := .absorbing rest }
  | leave {s : ExecState ν ε} (hl : s.holder = .absorbing []) :
      ExecStep s .leave { s with holder := .free, pc := .start }

/-- A fresh executor in a process whose nodes may have any history. -/
def ExecState.Initial (s : ExecState ν ε) : Prop :=
  s.nodes = [] ∧ s.nodeEpochs = (fun _ => none) ∧ s.attachments = .new ∧ s.holder = .free ∧ s.pc = .start

def executorSystem : System (ExecState ν ε) (ExecAction ν ε) where
  init := ExecState.Initial
  step := ExecStep

end System

end Rcllite
