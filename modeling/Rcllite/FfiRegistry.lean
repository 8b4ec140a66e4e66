import Mathlib.Data.Int.Notation
import Rcllite.Lib.Transition

/-! The registries of graph executors and of the graph monitor behind the FFI. A lookup hands out a raw
pointer that outlives its lock; an operation holds it until its body returns, while `graph_exec_destroy`
and `graph_stop` may free what it points to. -/
namespace Rcllite
open Transition

/-- A graph executor by its handle, which is never given twice, or one of the monitors that
`graph_start` creates, by their number. -/
inductive GraphObject where
  | executor (handle : ℤ)
  | monitor (n : ℕ)
deriving DecidableEq

inductive GraphOp where
  | spin
  | spinOnce
  | cancel
  | status
  | snapshot
deriving DecidableEq

/-- An operation between its lookup and its return. -/
structure GraphCall where
  op : GraphOp
  object : GraphObject
deriving DecidableEq

structure FfiState where
  execs : List ℤ             -- the keys of `g_graph_execs`
  nextExec : ℤ               -- `g_next_graph_exec`
  graph : Option ℕ           -- `g_graph`
  nextMonitor : ℕ
  calls : List GraphCall
  taken : List ℤ             -- moved out of the registry by `GraphExecDestroy_`
  joining : List ℤ           -- in the body of `~Impl`, behind `cancel()`
  freed : List GraphObject   -- their destruction has begun to free them
  usedFreed : Bool           -- a body has executed on one of those
deriving DecidableEq

namespace FfiState

def new : FfiState := ⟨[], 1, none, 0, [], [], [], [], false⟩

/-- `GraphExecCreate_` behind the construction of the executor. -/
def create (s : FfiState) : FfiState := { s with execs := s.nextExec :: s.execs, nextExec := s.nextExec + 1 }

/-- `graph_exec_lookup`, and the pointer in the hands of the caller. -/
def lookup (op : GraphOp) (handle : ℤ) (s : FfiState) : Except String FfiState :=
  if handle ∈ s.execs then .ok { s with calls := ⟨op, .executor handle⟩ :: s.calls }
  else .error ("unknown graph executor handle: " ++ toString handle)

/-- `GraphSnapshot_` up to `lock.unlock()`. -/
def snapshot (s : FfiState) : Except String FfiState :=
  match s.graph with
  | some n => .ok { s with calls := ⟨.snapshot, .monitor n⟩ :: s.calls }
  | none => .error "graph monitor not started"

/-- Some of the body of an operation. -/
def body (c : GraphCall) (s : FfiState) : FfiState := { s with usedFreed := s.usedFreed || c.object ∈ s.freed }

def finish (c : GraphCall) (s : FfiState) : FfiState := { s with calls := s.calls.erase c }

/-- The critical section of `GraphExecDestroy_`; an unknown handle is ignored. -/
def destroyTake (handle : ℤ) (s : FfiState) : FfiState :=
  if handle ∈ s.execs then { s with execs := s.execs.filter (· ≠ handle), taken := handle :: s.taken } else s

/-- The body of `~Impl`: the spin is told to stop, the publisher threads are joined. -/
def destroyCancel (handle : ℤ) (s : FfiState) : FfiState :=
  { s with taken := s.taken.erase handle, joining := handle :: s.joining }

/-- The members of the executor go. -/
def destroyFree (handle : ℤ) (s : FfiState) : FfiState :=
  { s with joining := s.joining.erase handle, freed := .executor handle :: s.freed }

def start (s : FfiState) : FfiState :=
  match s.graph with
  | some _ => s
  | none => { s with graph := some s.nextMonitor, nextMonitor := s.nextMonitor + 1 }

/-- `GraphStop_` frees the monitor under its lock. -/
def stop (s : FfiState) : FfiState :=
  match s.graph with
  | some n => { s with graph := none, freed := .monitor n :: s.freed }
  | none => s

end FfiState

inductive FfiAction where
  | create
  | lookup (op : GraphOp) (handle : ℤ)
  | snapshot
  | body (c : GraphCall)
  | finish (c : GraphCall)
  | destroyTake (handle : ℤ)
  | destroyCancel (handle : ℤ)
  | destroyFree (handle : ℤ)
  | start
  | stop

inductive FfiStep : FfiState → FfiAction → FfiState → Prop
  | create {s : FfiState} : FfiStep s .create s.create
  | lookup {s s' : FfiState} (op : GraphOp) (handle : ℤ) (h : s.lookup op handle = .ok s') :
      FfiStep s (.lookup op handle) s'
  | unknown {s : FfiState} {e : String} (op : GraphOp) (handle : ℤ) (h : s.lookup op handle = .error e) :
      FfiStep s (.lookup op handle) s
  | snapshot {s s' : FfiState} (h : s.snapshot = .ok s') : FfiStep s .snapshot s'
  | notStarted {s : FfiState} {e : String} (h : s.snapshot = .error e) : FfiStep s .snapshot s
  -- a body may be any number of steps: `spin` goes on until it is told to stop
  | body {s : FfiState} (c : GraphCall) (h : c ∈ s.calls) : FfiStep s (.body c) (s.body c)
  | finish {s : FfiState} (c : GraphCall) (h : c ∈ s.calls) : FfiStep s (.finish c) (s.finish c)
  | destroyTake {s : FfiState} (handle : ℤ) : FfiStep s (.destroyTake handle) (s.destroyTake handle)
  | destroyCancel {s : FfiState} (handle : ℤ) (h : handle ∈ s.taken) :
      FfiStep s (.destroyCancel handle) (s.destroyCancel handle)
  | destroyFree {s : FfiState} (handle : ℤ) (h : handle ∈ s.joining) :
      FfiStep s (.destroyFree handle) (s.destroyFree handle)
  | start {s : FfiState} : FfiStep s .start s.start
  | stop {s : FfiState} : FfiStep s .stop s.stop

def ffiSystem : System FfiState FfiAction where
  init s := s = .new
  step := FfiStep

/-- Nothing is freed while an operation that has looked it up has not returned. -/
def Unheld (s : FfiState) : FfiAction → Prop
  | .destroyFree handle => ∀ c ∈ s.calls, c.object ≠ .executor handle
  | .stop => ∀ c ∈ s.calls, ∀ n, s.graph = some n → c.object ≠ .monitor n
  | _ => True

/-- What the registries hand out is not on its way to be freed, and no pointer that is still held was
freed. Handles and numbers are fresh. -/
structure FfiState.Sound (s : FfiState) : Prop where
  registered : ∀ h ∈ s.execs, h < s.nextExec ∧ h ∉ s.taken ∧ h ∉ s.joining ∧ .executor h ∉ s.freed
  taken : ∀ h ∈ s.taken, h < s.nextExec
  joining : ∀ h ∈ s.joining, h < s.nextExec
  freedExec : ∀ h, .executor h ∈ s.freed → h < s.nextExec
  started : ∀ n, s.graph = some n → n < s.nextMonitor ∧ .monitor n ∉ s.freed
  freedMonitor : ∀ n, .monitor n ∈ s.freed → n < s.nextMonitor
  held : ∀ c ∈ s.calls, c.object ∉ s.freed
  unused : s.usedFreed = false

section Steps
variable {s s' : FfiState} {a : FfiAction}

theorem lookup_cases {op : GraphOp} {handle : ℤ} (h : s.lookup op handle = .ok s') :
    handle ∈ s.execs ∧ s' = { s with calls := ⟨op, .executor handle⟩ :: s.calls } := by
  unfold FfiState.lookup at h
  split_ifs at h with hmem
  cases h
  exact ⟨hmem, rfl⟩

theorem snapshot_cases (h : s.snapshot = .ok s') :
    ∃ n, s.graph = some n ∧ s' = { s with calls := ⟨.snapshot, .monitor n⟩ :: s.calls } := by
  unfold FfiState.snapshot at h
  cases hgraph : s.graph with
  | none =>
    rw [hgraph] at h
    cases h
  | some n =>
    rw [hgraph] at h
    cases h
    exact ⟨n, rfl, rfl⟩

theorem FfiState.Sound.create (hi : s.Sound) : s.create.Sound := by
  have hnext {h : ℤ} (hh : h < s.nextExec) : h < s.nextExec + 1 := Int.lt_add_one_of_le (Int.le_of_lt hh)
  refine { hi with registered := ?_, taken := ?_, joining := ?_, freedExec := ?_ }
  · intro h hh
    rcases List.mem_cons.mp hh with rfl | hh
    · refine ⟨Int.lt_succ _, fun ht => ?_, fun hj => ?_, fun hf => ?_⟩
      · exact absurd (hi.taken _ ht) (Int.lt_irrefl _)
      · exact absurd (hi.joining _ hj) (Int.lt_irrefl _)
      · exact absurd (hi.freedExec _ hf) (Int.lt_irrefl _)
    · obtain ⟨hlt, hrest⟩ := hi.registered h hh
      exact ⟨hnext hlt, hrest⟩
  · exact fun h hh => hnext (hi.taken h hh)
  · exact fun h hh => hnext (hi.joining h hh)
  · exact fun h hh => hnext (hi.freedExec h hh)

theorem FfiState.Sound.call (hi : s.Sound) {c : GraphCall} (hc : c.object ∉ s.freed) :
    FfiState.Sound { s with calls := c :: s.calls } := by
  refine { hi with held := ?_ }
  intro d hd
  rcases List.mem_cons.mp hd with rfl | hd
  · exact hc
  · exact hi.held d hd

theorem FfiState.Sound.destroyTake (hi : s.Sound) (handle : ℤ) : (s.destroyTake handle).Sound := by
  unfold FfiState.destroyTake
  split_ifs with hmem
  · refine { hi with registered := ?_, taken := ?_ }
    · intro h hh
      obtain ⟨hh, hne⟩ := List.mem_filter.mp hh
      obtain ⟨hlt, htaken, hrest⟩ := hi.registered h hh
      refine ⟨hlt, fun ht => ?_, hrest⟩
      rcases List.mem_cons.mp ht with rfl | ht
      · simp at hne
      · exact htaken ht
    · intro h hh
      rcases List.mem_cons.mp hh with rfl | hh
      · exact (hi.registered _ hmem).1
      · exact hi.taken h hh
  · exact hi

theorem FfiState.Sound.destroyCancel (hi : s.Sound) {handle : ℤ} (hmem : handle ∈ s.taken) :
    (s.destroyCancel handle).Sound := by
  refine { hi with registered := ?_, taken := ?_, joining := ?_ }
  · intro h hh
    obtain ⟨hlt, htaken, hjoining, hfreed⟩ := hi.registered h hh
    refine ⟨hlt, fun ht => htaken (List.mem_of_mem_erase ht), fun hj => ?_, hfreed⟩
    rcases List.mem_cons.mp hj with rfl | hj
    · exact htaken hmem
    · exact hjoining hj
  · exact fun h hh => hi.taken h (List.mem_of_mem_erase hh)
  · intro h hh
    rcases List.mem_cons.mp hh with rfl | hh
    · exact hi.taken _ hmem
    · exact hi.joining h hh

theorem FfiState.Sound.destroyFree (hi : s.Sound) {handle : ℤ} (hmem : handle ∈ s.joining)
    (hheld : ∀ c ∈ s.calls, c.object ≠ .executor handle) : (s.destroyFree handle).Sound := by
  refine { hi with registered := ?_, joining := ?_, freedExec := ?_, started := ?_, freedMonitor := ?_, held := ?_ }
  · intro h hh
    obtain ⟨hlt, htaken, hjoining, hfreed⟩ := hi.registered h hh
    refine ⟨hlt, htaken, fun hj => hjoining (List.mem_of_mem_erase hj), fun hf => ?_⟩
    rcases List.mem_cons.mp hf with heq | hf
    · cases heq
      exact hjoining hmem
    · exact hfreed hf
  · exact fun h hh => hi.joining h (List.mem_of_mem_erase hh)
  · intro h hh
    rcases List.mem_cons.mp hh with heq | hh
    · cases heq
      exact hi.joining _ hmem
    · exact hi.freedExec h hh
  · intro n hn
    obtain ⟨hlt, hfreed⟩ := hi.started n hn
    exact ⟨hlt, fun hf => hfreed (by simpa [FfiState.destroyFree] using hf)⟩
  · exact fun n hn => hi.freedMonitor n (by simpa [FfiState.destroyFree] using hn)
  · intro c hc hf
    rcases List.mem_cons.mp hf with heq | hf
    · exact hheld c hc heq
    · exact hi.held c hc hf

theorem FfiState.Sound.start (hi : s.Sound) : s.start.Sound := by
  unfold FfiState.start
  cases hgraph : s.graph with
  | some n => exact hi
  | none =>
    refine { hi with started := ?_, freedMonitor := ?_ }
    · intro n hn
      cases hn
      exact ⟨Nat.lt_succ_self _, fun hf => absurd (hi.freedMonitor _ hf) (Nat.lt_irrefl _)⟩
    · exact fun n hn => Nat.lt_succ_of_lt (hi.freedMonitor n hn)

theorem FfiState.Sound.stop (hi : s.Sound)
    (hheld : ∀ c ∈ s.calls, ∀ n, s.graph = some n → c.object ≠ .monitor n) : s.stop.Sound := by
  unfold FfiState.stop
  cases hgraph : s.graph with
  | none => exact hi
  | some m =>
    refine { hi with registered := ?_, freedExec := ?_, started := ?_, freedMonitor := ?_, held := ?_ }
    · intro h hh
      obtain ⟨hlt, htaken, hjoining, hfreed⟩ := hi.registered h hh
      exact ⟨hlt, htaken, hjoining, fun hf => hfreed (by simpa using hf)⟩
    · exact fun h hh => hi.freedExec h (by simpa using hh)
    · intro n hn
      cases hn
    · intro n hn
      rcases List.mem_cons.mp hn with heq | hn
      · cases heq
        exact (hi.started m hgraph).1
      · exact hi.freedMonitor n hn
    · intro c hc hf
      rcases List.mem_cons.mp hf with heq | hf
      · exact hheld c hc m hgraph heq
      · exact hi.held c hc hf

theorem step_sound (hP : Unheld s a) (hi : s.Sound) (hs : FfiStep s a s') : s'.Sound := by
  cases hs with
  | create => exact hi.create
  | lookup op handle h =>
    -- a registered executor has not been freed
    obtain ⟨hmem, rfl⟩ := lookup_cases h
    exact hi.call (hi.registered handle hmem).2.2.2
  | unknown op handle h => exact hi
  | snapshot h =>
    obtain ⟨n, hgraph, rfl⟩ := snapshot_cases h
    exact hi.call (hi.started n hgraph).2
  | notStarted h => exact hi
  | body c h =>
    have hlive := hi.held c h
    refine { hi with unused := ?_ }
    change (s.usedFreed || decide (c.object ∈ s.freed)) = false
    rw [hi.unused, decide_eq_false hlive]
    rfl
  | finish c h => exact { hi with held := fun d hd => hi.held d (List.mem_of_mem_erase hd) }
  | destroyTake handle => exact hi.destroyTake handle
  | destroyCancel handle h => exact hi.destroyCancel h
  | destroyFree handle h => exact hi.destroyFree h hP
  | start => exact hi.start
  | stop => exact hi.stop hP

end Steps

/-- In every run in which nothing is freed under a caller, no body executes on a freed object. -/
theorem no_call_on_destroyed_graph_object {s : FfiState} (h : (ffiSystem.restrict Unheld).Reachable s) :
    s.usedFreed = false := by
  have hsound : s.Sound := by
    refine h.invariant FfiState.Sound ?_ ?_
    · rintro s rfl
      constructor <;> simp [FfiState.new]
    · intro s a s' _ hi hs
      exact step_sound hs.1 hi hs.2
  exact hsound.unused

section Runs

/-- A spin that is interrupted, returns, and only then does the destruction go on. -/
theorem no_call_on_destroyed_graph_object_orderly :
    ∃ s, (ffiSystem.restrict Unheld).Reachable s ∧ s.freed = [.executor 1] ∧ s.usedFreed = false := by
  let spin : GraphCall := ⟨.spin, .executor 1⟩
  have h₀ : (ffiSystem.restrict Unheld).Reachable .new := .init rfl
  have h₁ := h₀.step_restrict .create trivial
  have h₂ := h₁.step_restrict (.lookup .spin 1 rfl) trivial
  have h₃ := h₂.step_restrict (.body spin (by decide)) trivial
  have h₄ := h₃.step_restrict (.destroyTake 1) trivial
  have h₅ := h₄.step_restrict (.destroyCancel 1 (by decide)) trivial
  have h₆ := h₅.step_restrict (.body spin (by decide)) trivial
  have h₇ := h₆.step_restrict (.finish spin (by decide)) trivial
  have h₈ := h₇.step_restrict (.destroyFree 1 (by decide)) (by intro c hc; cases hc)
  exact ⟨_, h₈, rfl, no_call_on_destroyed_graph_object h₈⟩

/-- The destructor tells the spin to stop and does not wait for it. -/
theorem spin_on_destroyed_executor : ∃ s, ffiSystem.Reachable s ∧ s.usedFreed = true := by
  let spin : GraphCall := ⟨.spin, .executor 1⟩
  have h₀ : ffiSystem.Reachable .new := .init rfl
  have h₁ := h₀.step .create
  have h₂ := h₁.step (.lookup .spin 1 rfl)
  have h₃ := h₂.step (.body spin (by decide))
  have h₄ := h₃.step (.destroyTake 1)
  have h₅ := h₄.step (.destroyCancel 1 (by decide))
  have h₆ := h₅.step (.destroyFree 1 (by decide))
  have h₇ := h₆.step (.body spin (by decide))
  exact ⟨_, h₇, rfl⟩

end Runs

end Rcllite
