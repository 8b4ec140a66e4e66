import Rcllite.Lib.SharedPtr
import Rcllite.NodeRegistry

/-! The threads inside the calls on nodes. A lookup hands out a shared pointer to the entry of the node, which
its call drops when it returns; `node_destroy` moves the pointer of the registry into its own frame. -/
namespace Rcllite
open Transition

inductive NodeOp where
  | name
  | nodeNamespace
  | fqName
  | spin
  | spinOnce
  | cancel
  | destroy
deriving DecidableEq

/-- A call that holds a pointer to the entry of the node. -/
structure NodeCall where
  op : NodeOp
  handle : ℤ
deriving DecidableEq

structure NodeThreads where
  registry : NodeRegistry
  blocks : SharedPtr.Blocks ℤ   -- of the node entries, by their handles
  created : List ℤ
  calls : List NodeCall
  usedFreed : Bool              -- a body has executed on a freed entry

namespace NodeThreads

def new : NodeThreads := ⟨.new, .new, [], [], false⟩

/-- The pointers to node entries that there are: those of the registry and those of the calls. -/
def pointers (s : NodeThreads) : List ℤ := s.registry.registry.keys ++ s.calls.map NodeCall.handle

def create (s : NodeThreads) : NodeThreads :=
  { s with
    registry := s.registry.nodeCreate.2
    blocks := s.blocks.acquire s.registry.next
    created := s.registry.next :: s.created }

/-- `lookup`, and the pointer in the hands of the caller. -/
def lookup (op : NodeOp) (handle : ℤ) (s : NodeThreads) : Except FfiError NodeThreads :=
  (s.registry.lookup handle).map fun _ =>
    { s with blocks := s.blocks.acquire handle, calls := ⟨op, handle⟩ :: s.calls }

/-- The critical section of `NodeDestroy_`: the pointer is copied and the entry erased. -/
def destroyTake (handle : ℤ) (s : NodeThreads) : NodeThreads :=
  match s.registry.registry.find? handle with
  | none => s
  | some _ =>
    { s with
      registry := s.registry.nodeDestroy handle
      blocks := (s.blocks.acquire handle).release handle
      calls := ⟨.destroy, handle⟩ :: s.calls }

/-- Some of the body of a call. -/
def body (c : NodeCall) (s : NodeThreads) : NodeThreads :=
  { s with usedFreed := s.usedFreed || c.handle ∈ s.blocks.freed }

def finish (c : NodeCall) (s : NodeThreads) : NodeThreads :=
  { s with blocks := s.blocks.release c.handle, calls := s.calls.erase c }

end NodeThreads

/-- A call that works under the lock of the registry from its beginning to its end, or a new order of the nodes. -/
def RegistryCall.Locked : RegistryCall → Prop
  | .rehash _ | .create .. | .publish .. | .pubDestroy _ | .subDestroy _ => True
  | _ => False

inductive NodeAction where
  | create
  | locked (c : RegistryCall)
  | lookup (op : NodeOp) (handle : ℤ)
  | destroyTake (handle : ℤ)
  | body (c : NodeCall)
  | finish (c : NodeCall)

inductive NodeStep : NodeThreads → NodeAction → NodeThreads → Prop
  | create {s : NodeThreads} : NodeStep s .create s.create
  | locked {s : NodeThreads} (c : RegistryCall) (h : c.Locked) :
      NodeStep s (.locked c) { s with registry := (NodeRegistry.call c s.registry).2 }
  | lookup {s s' : NodeThreads} (op : NodeOp) (handle : ℤ) (hop : op ≠ .destroy) (h : s.lookup op handle = .ok s') :
      NodeStep s (.lookup op handle) s'
  | unknown {s : NodeThreads} {e : FfiError} (op : NodeOp) (handle : ℤ) (h : s.lookup op handle = .error e) :
      NodeStep s (.lookup op handle) s
  | destroyTake {s : NodeThreads} (handle : ℤ) : NodeStep s (.destroyTake handle) (s.destroyTake handle)
  -- a body may be any number of steps: `spin` goes on until it is told to stop
  | body {s : NodeThreads} (c : NodeCall) (h : c ∈ s.calls) : NodeStep s (.body c) (s.body c)
  | finish {s : NodeThreads} (c : NodeCall) (h : c ∈ s.calls) : NodeStep s (.finish c) (s.finish c)

def nodeSystem : System NodeThreads NodeAction where
  init s := s = .new
  step := NodeStep

/-- The counts are right, and an entry that was made has been freed or has a pointer to it. -/
structure NodeThreads.Sound (s : NodeThreads) : Prop where
  tracks : s.blocks.Tracks s.pointers
  accounted : ∀ h ∈ s.created, h ∈ s.blocks.freed ∨ h ∈ s.pointers
  below : ∀ h, h ∈ s.blocks.freed ∨ h ∈ s.pointers ∨ h ∈ s.created → h < s.registry.next
  leaving : ∀ c ∈ s.calls, c.op = .destroy → c.handle ∉ s.registry.registry.keys ∧ s.calls.count c = 1
  unused : s.usedFreed = false

section Steps
variable {s s' : NodeThreads}

theorem registered_mem_pointers {h : ℤ} (hh : h ∈ s.registry.registry.keys) : h ∈ s.pointers :=
  List.mem_append_left _ hh

theorem call_mem_pointers {c : NodeCall} (hc : c ∈ s.calls) : c.handle ∈ s.pointers :=
  List.mem_append_right _ (List.mem_map_of_mem hc)

theorem NodeThreads.lookup_cases {op : NodeOp} {handle : ℤ} (h : s.lookup op handle = .ok s') :
    handle ∈ s.registry.registry.keys ∧
      s' = { s with blocks := s.blocks.acquire handle, calls := ⟨op, handle⟩ :: s.calls } := by
  unfold NodeThreads.lookup NodeRegistry.lookup at h
  cases hentry : s.registry.registry.find? handle with
  | none =>
    rw [hentry] at h
    cases h
  | some entry =>
    rw [hentry] at h
    exact ⟨AssocMap.mem_keys_iff.mpr ⟨entry, hentry⟩, (Except.ok.inj h).symm⟩

/-- Publishers and subscriptions come and go, the nodes stay. -/
theorem locked_keys (r : NodeRegistry) {c : RegistryCall} (hc : c.Locked) :
    (NodeRegistry.call c r).2.registry.keys.Perm r.registry.keys ∧ r.next ≤ (NodeRegistry.call c r).2.next := by
  have hcreate : ∀ kind node topic typeName made,
      (created r (r.endpointCreate kind node topic typeName made)).2.registry.keys.Perm r.registry.keys ∧
        r.next ≤ (created r (r.endpointCreate kind node topic typeName made)).2.next := by
    intro kind node topic typeName made
    cases hok : r.endpointCreate kind node topic typeName made with
    | error e => exact ⟨List.Perm.refl _, le_refl _⟩
    | ok x =>
      obtain ⟨type, entry, -, hentry, -, hstate⟩ := NodeRegistry.endpointCreate_cases hok
      rw [created, hstate]
      exact ⟨AssocMap.keys_insert_perm _ (AssocMap.mem_keys_iff.mpr ⟨entry, hentry⟩), Int.le_of_lt (Int.lt_succ _)⟩
  have hdestroy : ∀ kind handle, (r.endpointDestroy kind handle).registry.keys.Perm r.registry.keys :=
    fun kind handle => List.Perm.of_eq (AssocMap.keys_updateFirst _ _)
  cases c with
  | rehash order => exact ⟨AssocMap.keys_arrange_perm _ order, le_refl _⟩
  | create kind node topic typeName made => cases kind <;> exact hcreate _ node topic typeName made
  | publish bits allocated accepted handle payload => exact ⟨List.Perm.refl _, le_refl _⟩
  | pubDestroy handle => exact ⟨hdestroy .pub handle, le_refl _⟩
  | subDestroy handle => exact ⟨hdestroy .sub handle, le_refl _⟩
  | _ => exact hc.elim

namespace NodeThreads.Sound

theorem create (hi : s.Sound) : s.create.Sound := by
  have hfresh : s.registry.next ∉ s.registry.registry.keys :=
    fun h => absurd (hi.below _ (Or.inr (Or.inl (registered_mem_pointers h)))) (Int.lt_irrefl _)
  have hpointers : s.create.pointers = s.registry.next :: s.pointers := by
    change (s.registry.registry.insert s.registry.next .new).keys ++ _ = _
    rw [AssocMap.keys_insert_new hfresh]
    rfl
  refine ⟨?_, fun h hh => ?_, fun h hh => ?_, fun c hc hop => ⟨fun hmem => ?_, (hi.leaving c hc hop).2⟩, hi.unused⟩
  · rw [hpointers]
    exact hi.tracks.acquire (fun hf => absurd (hi.below _ (Or.inl hf)) (Int.lt_irrefl _))
  · rw [hpointers]
    rcases List.mem_cons.mp hh with rfl | hh
    · exact Or.inr List.mem_cons_self
    · exact (hi.accounted h hh).imp_right (List.mem_cons_of_mem _)
  · rw [hpointers] at hh
    change h < s.registry.next + 1
    rcases hh with hf | hp | hc
    · exact Int.lt_add_one_of_le (hi.below h (Or.inl hf)).le
    · rcases List.mem_cons.mp hp with rfl | hp
      · exact Int.lt_succ _
      · exact Int.lt_add_one_of_le (hi.below h (Or.inr (Or.inl hp))).le
    · rcases List.mem_cons.mp hc with rfl | hc
      · exact Int.lt_succ _
      · exact Int.lt_add_one_of_le (hi.below h (Or.inr (Or.inr hc))).le
  · change c.handle ∈ (s.registry.registry.insert s.registry.next .new).keys at hmem
    rw [AssocMap.keys_insert_new hfresh] at hmem
    rcases List.mem_cons.mp hmem with heq | hmem
    · exact absurd (hi.below _ (Or.inr (Or.inl (call_mem_pointers hc)))) (heq ▸ Int.lt_irrefl _)
    · exact (hi.leaving c hc hop).1 hmem

theorem lookup (hi : s.Sound) {op : NodeOp} {handle : ℤ} (hop : op ≠ .destroy) (h : s.lookup op handle = .ok s') :
    s'.Sound := by
  obtain ⟨hmem, rfl⟩ := NodeThreads.lookup_cases h
  have hp := registered_mem_pointers hmem
  have hperm : (handle :: s.pointers).Perm (s.registry.registry.keys ++ handle :: s.calls.map NodeCall.handle) :=
    List.perm_middle.symm
  refine ⟨(hi.tracks.copy hp).perm hperm, fun k hk => ?_, fun k hk => ?_, fun c hc hdestroy => ?_, hi.unused⟩
  · exact (hi.accounted k hk).imp_right (fun h => hperm.mem_iff.mp (List.mem_cons_of_mem _ h))
  · rcases hk with hf | hk | hc
    · exact hi.below k (Or.inl hf)
    · rcases List.mem_cons.mp (hperm.mem_iff.mpr hk) with rfl | hk
      · exact hi.below _ (Or.inr (Or.inl hp))
      · exact hi.below k (Or.inr (Or.inl hk))
    · exact hi.below k (Or.inr (Or.inr hc))
  · rcases List.mem_cons.mp hc with rfl | hc
    · exact absurd hdestroy hop
    · obtain ⟨hgone, hone⟩ := hi.leaving c hc hdestroy
      refine ⟨hgone, ?_⟩
      have hne : (⟨op, handle⟩ : NodeCall) ≠ c := by
        intro h
        rw [← h] at hdestroy
        exact hop hdestroy
      change (_ :: s.calls).count c = 1
      rw [List.count_cons_of_ne hne, hone]

theorem destroyTake (hi : s.Sound) (handle : ℤ) : (s.destroyTake handle).Sound := by
  unfold NodeThreads.destroyTake
  cases hentry : s.registry.registry.find? handle with
  | none => exact hi
  | some entry =>
    have hmem : handle ∈ s.registry.registry.keys := AssocMap.mem_keys_iff.mpr ⟨entry, hentry⟩
    have hp := registered_mem_pointers hmem
    -- the pointer moves from the registry into the frame of the call
    have hmove : s.pointers.Perm ((s.registry.registry.erase handle).keys ++ handle :: s.calls.map NodeCall.handle) := by
      calc
        s.pointers.Perm (handle :: (s.registry.registry.erase handle).keys ++ s.calls.map NodeCall.handle) :=
          (AssocMap.keys_erase_perm hmem).append_right _
        List.Perm _ ((s.registry.registry.erase handle).keys ++ handle :: s.calls.map NodeCall.handle) :=
          List.perm_middle.symm
    have htracks := ((hi.tracks.copy hp).release).perm hmove
    have hfreed : ∀ k, k ∈ ((s.blocks.acquire handle).release handle).freed ↔ k ∈ s.blocks.freed := by
      intro k
      rw [(hi.tracks.copy hp).mem_release]
      exact ⟨fun h => h.resolve_right (fun h => h.2 hp), Or.inl⟩
    refine ⟨htracks, fun k hk => ?_, fun k hk => ?_, fun c hc hdestroy => ?_, hi.unused⟩
    · exact (hi.accounted k hk).imp (hfreed k).mpr hmove.mem_iff.mp
    · rcases hk with hf | hk | hc
      · exact hi.below k (Or.inl ((hfreed k).mp hf))
      · exact hi.below k (Or.inr (Or.inl (hmove.mem_iff.mpr hk)))
      · exact hi.below k (Or.inr (Or.inr hc))
    · have hgone : handle ∉ (s.registry.registry.erase handle).keys := by
        intro h
        obtain ⟨v, hv⟩ := AssocMap.mem_keys_iff.mp h
        rw [AssocMap.find?_erase_self] at hv
        cases hv
      rcases List.mem_cons.mp hc with rfl | hc
      · -- a second destroy would have found nothing
        refine ⟨hgone, ?_⟩
        have hnone : (⟨.destroy, handle⟩ : NodeCall) ∉ s.calls := fun h => (hi.leaving _ h rfl).1 hmem
        change (_ :: s.calls).count _ = 1
        rw [List.count_cons_self, List.count_eq_zero.mpr hnone]
      · obtain ⟨hold, hone⟩ := hi.leaving c hc hdestroy
        refine ⟨fun h => ?_, ?_⟩
        · obtain ⟨v, hv⟩ := AssocMap.mem_keys_iff.mp h
          have hne : c.handle ≠ handle := by
            intro heq
            exact hold (heq ▸ hmem)
          rw [NodeRegistry.nodeDestroy, AssocMap.find?_erase_ne _ hne] at hv
          exact hold (AssocMap.mem_keys_iff.mpr ⟨v, hv⟩)
        · have hne : (⟨.destroy, handle⟩ : NodeCall) ≠ c := by
            intro heq
            rw [← heq] at hold
            exact hold hmem
          change (_ :: s.calls).count c = 1
          rw [List.count_cons_of_ne hne, hone]

theorem finish (hi : s.Sound) {c : NodeCall} (hc : c ∈ s.calls) : (s.finish c).Sound := by
  have hperm : s.pointers.Perm (c.handle :: (s.registry.registry.keys ++ (s.calls.erase c).map NodeCall.handle)) := by
    calc
      s.pointers.Perm (s.registry.registry.keys ++ c.handle :: (s.calls.erase c).map NodeCall.handle) :=
        ((List.perm_cons_erase hc).map NodeCall.handle).append_left _
      List.Perm _ (c.handle :: (s.registry.registry.keys ++ (s.calls.erase c).map NodeCall.handle)) :=
        List.perm_middle
  have htracks := hi.tracks.perm hperm
  refine ⟨htracks.release, fun k hk => ?_, fun k hk => ?_, fun d hd hdestroy => ?_, hi.unused⟩
  · change k ∈ (s.blocks.release c.handle).freed ∨ k ∈ s.registry.registry.keys ++ _
    rw [htracks.mem_release]
    rcases hi.accounted k hk with hf | hk
    · exact Or.inl (Or.inl hf)
    · rcases List.mem_cons.mp (hperm.mem_iff.mp hk) with rfl | hk
      · by_cases hstill : c.handle ∈ s.registry.registry.keys ++ (s.calls.erase c).map NodeCall.handle
        · exact Or.inr hstill
        · exact Or.inl (Or.inr ⟨rfl, hstill⟩)
      · exact Or.inr hk
  · change k ∈ (s.blocks.release c.handle).freed ∨ k ∈ s.registry.registry.keys ++ _ ∨ _ at hk
    rw [htracks.mem_release] at hk
    rcases hk with (hf | ⟨rfl, -⟩) | hk | hk
    · exact hi.below k (Or.inl hf)
    · exact hi.below _ (Or.inr (Or.inl (call_mem_pointers hc)))
    · exact hi.below k (Or.inr (Or.inl (hperm.mem_iff.mpr (List.mem_cons_of_mem _ hk))))
    · exact hi.below k (Or.inr (Or.inr hk))
  · have hmem : d ∈ s.calls := List.mem_of_mem_erase hd
    obtain ⟨hgone, hone⟩ := hi.leaving d hmem hdestroy
    refine ⟨hgone, ?_⟩
    have hne : d ≠ c := by
      rintro rfl
      have hcount := List.count_erase_self (a := d) (l := s.calls)
      have hpos : 0 < (s.calls.erase d).count d := List.count_pos_iff.mpr hd
      omega
    change (s.calls.erase c).count d = 1
    rw [List.count_erase_of_ne hne, hone]

theorem locked (hi : s.Sound) {c : RegistryCall} (hc : c.Locked) :
    NodeThreads.Sound { s with registry := (NodeRegistry.call c s.registry).2 } := by
  obtain ⟨hkeys, hnext⟩ := locked_keys s.registry hc
  have hperm : s.pointers.Perm ((NodeRegistry.call c s.registry).2.registry.keys ++ s.calls.map NodeCall.handle) :=
    hkeys.symm.append_right _
  refine ⟨hi.tracks.perm hperm, fun k hk => ?_, fun k hk => ?_, fun d hd hdestroy => ?_, hi.unused⟩
  · exact (hi.accounted k hk).imp_right hperm.mem_iff.mp
  · refine lt_of_lt_of_le (hi.below k ?_) hnext
    exact hk.imp_right (Or.imp_left hperm.mem_iff.mpr)
  · obtain ⟨hgone, hone⟩ := hi.leaving d hd hdestroy
    exact ⟨fun h => hgone (hkeys.mem_iff.mp h), hone⟩

end NodeThreads.Sound

theorem nodeStep_sound {a : NodeAction} (hi : s.Sound) (hs : NodeStep s a s') : s'.Sound := by
  cases hs with
  | create => exact hi.create
  | locked c h => exact hi.locked h
  | lookup op handle hop h => exact hi.lookup hop h
  | unknown op handle h => exact hi
  | destroyTake handle => exact hi.destroyTake handle
  | body c h =>
    have hlive : c.handle ∉ s.blocks.freed := fun hf => hi.tracks.freed _ hf (call_mem_pointers h)
    refine { hi with unused := ?_ }
    change (s.usedFreed || decide (c.handle ∈ s.blocks.freed)) = false
    rw [hi.unused, decide_eq_false hlive]
    rfl
  | finish c h => exact hi.finish h

end Steps

/-- However the threads are interleaved, no body executes on an entry that was freed. An entry is freed once, when
it is in the registry no more and the last call that looked it up has returned; until then its count is the
number of those calls and one for the registry. Of the calls to `node_destroy` at most one has the entry in
hand. -/
theorem node_entry_lifetime {s : NodeThreads} (h : nodeSystem.Reachable s) :
    s.usedFreed = false ∧ s.blocks.freed.Nodup ∧
    (∀ n, s.blocks.strong n = (if (s.registry.registry.find? n).isSome then 1 else 0) +
      s.calls.countP (fun c => c.handle = n)) ∧
    (∀ n ∈ s.created, n ∈ s.blocks.freed ↔ s.registry.registry.find? n = none ∧ ∀ c ∈ s.calls, c.handle ≠ n) ∧
    ∀ n, s.calls.count ⟨.destroy, n⟩ ≤ 1 := by
  have hi : s.Sound := by
    refine h.invariant NodeThreads.Sound ?_ (fun _ _ _ _ hi hs => nodeStep_sound hi hs)
    rintro s rfl
    exact ⟨SharedPtr.Blocks.Tracks.new, fun h hh => absurd hh List.not_mem_nil,
      fun h hh => by simp [NodeThreads.new, NodeThreads.pointers, NodeRegistry.new, SharedPtr.Blocks.new, AssocMap.keys,
        AssocMap.empty] at hh, fun c hc => absurd hc List.not_mem_nil, rfl⟩
  have hmem : ∀ n, n ∈ s.registry.registry.keys ↔ (s.registry.registry.find? n).isSome :=
    fun n => AssocMap.mem_keys_iff.trans Option.isSome_iff_exists.symm
  refine ⟨hi.unused, hi.tracks.once, fun n => ?_, fun n hn => ?_, fun n => ?_⟩
  · have hkeys : s.registry.registry.keys.count n = if (s.registry.registry.find? n).isSome then 1 else 0 := by
      split_ifs with hsome
      · exact List.count_eq_one_of_mem s.registry.registry.nodup ((hmem n).mpr hsome)
      · exact List.count_eq_zero.mpr (fun h => hsome ((hmem n).mp h))
    have hcalls : (s.calls.map NodeCall.handle).count n = s.calls.countP (fun c => c.handle = n) := by
      rw [List.count, List.countP_map]
      refine List.countP_congr (fun c _ => ?_)
      simp
    rw [hi.tracks.strong, NodeThreads.pointers, List.count_append, hkeys, hcalls]
  · have hpointers : n ∈ s.pointers ↔ ¬ (s.registry.registry.find? n = none ∧ ∀ c ∈ s.calls, c.handle ≠ n) := by
      rw [NodeThreads.pointers, List.mem_append, hmem, List.mem_map, not_and_or, Option.isSome_iff_ne_none]
      simp
    have hnone := not_iff_not.mpr hpointers
    rw [not_not] at hnone
    rw [← hnone]
    exact ⟨hi.tracks.freed n, fun h => (hi.accounted n hn).resolve_right h⟩
  · by_cases hd : (⟨.destroy, n⟩ : NodeCall) ∈ s.calls
    · exact (hi.leaving _ hd rfl).2.le
    · rw [List.count_eq_zero.mpr hd]
      exact Nat.zero_le 1

/-- A node is destroyed while it spins; its entry goes when the spin has returned. -/
theorem node_entry_lifetime_spin :
    ∃ s, nodeSystem.Reachable s ∧ s.blocks.freed = [1] ∧ s.usedFreed = false := by
  let spin : NodeCall := ⟨.spin, 1⟩
  let destroy : NodeCall := ⟨.destroy, 1⟩
  have h₀ : nodeSystem.Reachable .new := .init rfl
  have h₁ := h₀.step .create
  have h₂ := h₁.step (.lookup .spin 1 (by decide) rfl)
  have h₃ := h₂.step (.destroyTake 1)
  have h₄ := h₃.step (.body destroy (by decide))
  have h₅ := h₄.step (.finish destroy (by decide))
  have h₆ := h₅.step (.body spin (by decide))
  have h₇ := h₆.step (.finish spin (by decide))
  exact ⟨_, h₇, rfl, (node_entry_lifetime h₇).1⟩

end Rcllite
