import Mathlib.Algebra.BigOperators.Group.List.Basic
import Rcllite.ExecutorAttachments

/-! The array of triggered attachments in `Executor::wait_and_process`. The wait
reports how many attachments are triggered and fills as many slots as there
are; the loop believes the number. -/
namespace Rcllite
open Transition

/-- `MAX_TRIGGERS` -/
def maxTriggers : ℕ := 64

section Slots
variable {ν ε : Type}

/-- The ids of the attachments that are triggered. -/
def Bookkeeping.triggered (s : Bookkeeping ν ε) (ready : WaitCond ν ε → Bool) : List (BitVec 64) :=
  (s.waitset.filter (fun w => ready w.1)).map Prod.snd

/-- `dds_waitset_wait` of CycloneDDS 0.10: the number of triggered attachments,
and the slots it filled, of which there are at most `nxs`. -/
def Bookkeeping.waitsetWait (s : Bookkeeping ν ε) (ready : WaitCond ν ε → Bool) (nxs : ℕ) :
    ℕ × List (BitVec 64) :=
  ((s.triggered ready).length, (s.triggered ready).take nxs)

/-- What a call has done, with the indices at which it read the array. -/
structure Processed (ε : Type) where
  reads : List ℕ
  cancelRequested : Bool
  dispatched : List ε
  didWork : Bool

/-- One turn of the loop. Behind the filled slots stands whatever the stack
holds there. -/
def Bookkeeping.processSlot (s : Bookkeeping ν ε) (filled : List (BitVec 64)) (stack : ℕ → BitVec 64)
    (p : Processed ε) (i : ℕ) : Processed ε :=
  let id := filled.getD i (stack i)
  let p := { p with reads := p.reads ++ [i] }
  if id = 1 then { p with cancelRequested := true }
  else if id = 2 then p
  else match s.dispatched id with
    | some e => { p with dispatched := p.dispatched ++ [e], didWork := true }
    | none => p

/-- `wait_and_process` behind its reconcile; `failure` is the negative code of
a wait that fails. -/
def Bookkeeping.waitAndProcess (s : Bookkeeping ν ε) (ready : WaitCond ν ε → Bool) (stack : ℕ → BitVec 64)
    (failure : Option ℤ) : Except String (Processed ε) :=
  match failure with
  | some code => .error ("dds_waitset_wait failed: " ++ toString code)
  | none =>
    let (n, filled) := s.waitsetWait ready maxTriggers
    if n = 0 then .ok ⟨[], false, [], false⟩
    else .ok ((List.range n).foldl (s.processSlot filled stack) ⟨[], false, [], false⟩)

namespace Bookkeeping
variable {s : Bookkeeping ν ε}

/-- Every read is of a slot that the wait filled, hence inside the array. -/
def ReadsFilled (s : Bookkeeping ν ε) (ready : WaitCond ν ε → Bool) (p : Processed ε) : Prop :=
  ∀ i ∈ p.reads, i < min (s.waitsetWait ready maxTriggers).2.length maxTriggers

theorem processSlot_reads (filled : List (BitVec 64)) (stack : ℕ → BitVec 64) (p : Processed ε) (i : ℕ) :
    (s.processSlot filled stack p i).reads = p.reads ++ [i] := by
  unfold processSlot
  dsimp only
  split_ifs
  · rfl
  · rfl
  · split <;> rfl

theorem foldl_processSlot_reads (filled : List (BitVec 64)) (stack : ℕ → BitVec 64) (is : List ℕ)
    (p : Processed ε) : (is.foldl (s.processSlot filled stack) p).reads = p.reads ++ is := by
  induction is generalizing p with
  | nil => simp
  | cons i is ih => rw [List.foldl_cons, ih, processSlot_reads, List.append_assoc, List.singleton_append]

/-- The loop reads as many slots as attachments are triggered. -/
theorem waitAndProcess_reads {ready : WaitCond ν ε → Bool} {stack : ℕ → BitVec 64} {failure : Option ℤ}
    {p : Processed ε} (h : s.waitAndProcess ready stack failure = .ok p) :
    p.reads = List.range (s.triggered ready).length := by
  unfold waitAndProcess at h
  cases failure with
  | some code => cases h
  | none =>
    change (if (s.triggered ready).length = 0 then _ else _) = _ at h
    split_ifs at h with hn
    · rw [← Except.ok.inj h, hn]
      rfl
    · rw [← Except.ok.inj h, foldl_processSlot_reads]
      rfl

theorem waitAndProcess_ok (s : Bookkeeping ν ε) (ready : WaitCond ν ε → Bool) (stack : ℕ → BitVec 64) :
    ∃ p, s.waitAndProcess ready stack none = .ok p := by
  unfold waitAndProcess
  dsimp only
  split_ifs
  · exact ⟨_, rfl⟩
  · exact ⟨_, rfl⟩

theorem readsFilled_iff {ready : WaitCond ν ε → Bool} {stack : ℕ → BitVec 64} {failure : Option ℤ}
    {p : Processed ε} (h : s.waitAndProcess ready stack failure = .ok p) :
    s.ReadsFilled ready p ↔ (s.triggered ready).length ≤ maxTriggers := by
  unfold ReadsFilled
  rw [waitAndProcess_reads h]
  simp only [List.mem_range, waitsetWait, List.length_take]
  constructor
  · intro hall
    by_contra hmany
    have hlast := hall maxTriggers (by omega)
    omega
  · intro hfew i hi
    omega

theorem triggered_length_le (ready : WaitCond ν ε → Bool) : (s.triggered ready).length ≤ s.waitset.length := by
  rw [triggered, List.length_map]
  exact List.length_filter_le _ _

theorem triggered_all : (s.triggered (fun _ => true)).length = s.waitset.length := by
  rw [triggered, List.length_map, List.filter_true]

end Bookkeeping

/-- The conditions of a list of nodes, the change guard of each first. -/
def nodeConds (nodes : List ν) (entities : ν → List ε) : List (Cond ν ε) :=
  nodes.flatMap (fun n => .changeGuard n :: (entities n).map .entity)

theorem mem_nodeConds (nodes : List ν) (entities : ν → List ε) (c : Cond ν ε) :
    c ∈ nodeConds nodes entities ↔ Wanted nodes entities c := by
  cases c <;> simp [nodeConds, Wanted]

theorem length_nodeConds (nodes : List ν) (entities : ν → List ε) :
    (nodeConds nodes entities).length = (nodes.map (fun n => 1 + (entities n).length)).sum := by
  simp [nodeConds, List.length_flatMap, Nat.add_comm]

/-- Distinct nodes with distinct entities of their own have distinct conditions. -/
theorem nodup_nodeConds {nodes : List ν} {entities : ν → List ε} (hnodes : nodes.Nodup)
    (hentities : ∀ n ∈ nodes, (entities n).Nodup) {owner : ε → ν}
    (howner : ∀ n ∈ nodes, ∀ e ∈ entities n, owner e = n) : (nodeConds nodes entities).Nodup := by
  induction nodes with
  | nil => exact List.nodup_nil
  | cons n nodes ih =>
    obtain ⟨hn, hnodes⟩ := List.nodup_cons.mp hnodes
    have hrest := ih hnodes (fun m hm => hentities m (List.mem_cons_of_mem n hm))
      (fun m hm => howner m (List.mem_cons_of_mem n hm))
    have hown := howner n List.mem_cons_self
    rw [nodeConds, List.flatMap_cons]
    refine List.Nodup.append ?_ hrest ?_
    · refine List.nodup_cons.mpr ⟨by simp, (hentities n List.mem_cons_self).map ?_⟩
      intro e e' h
      exact Cond.entity.inj h
    · intro c hc hc'
      have hwanted := (mem_nodeConds nodes entities c).mp hc'
      cases c with
      | changeGuard m =>
        obtain rfl : m = n := by simpa using hc
        exact hn hwanted
      | entity e =>
        obtain ⟨m, hm, he⟩ := hwanted
        have he' : e ∈ entities n := by simpa using hc
        rw [← hown e he', howner m (List.mem_cons_of_mem n hm) e he] at hn
        exact hn hm

end Slots

section Load
variable {ν ε : Type} [DecidableEq ν] [DecidableEq ε]

/-- In sync, the waitset holds the two guards of the executor and, for each
node, its change guard and its entities. -/
theorem Bookkeeping.InSync.waitset_length {s : Bookkeeping ν ε} (hs : s.InSync) (hnodes : s.nodes.Nodup)
    (hentities : ∀ n ∈ s.nodes, (s.entities n).Nodup) {owner : ε → ν}
    (howner : ∀ n ∈ s.nodes, ∀ e ∈ s.entities n, owner e = n) :
    s.waitset.length = 2 + (s.nodes.map (fun n => 1 + (s.entities n).length)).sum := by
  have hnodup : (WaitCond.cancelGuard :: .wakeGuard ::
      (nodeConds s.nodes s.entities).map WaitCond.of).Nodup := by
    have hof : ((nodeConds s.nodes s.entities).map WaitCond.of).Nodup :=
      (nodup_nodeConds hnodes hentities howner).map (fun c c' h => WaitCond.of.inj h)
    refine List.nodup_cons.mpr ⟨by simp, List.nodup_cons.mpr ⟨by simp, hof⟩⟩
  have hperm : (s.waitset.map Prod.fst).Perm (WaitCond.cancelGuard :: .wakeGuard ::
      (nodeConds s.nodes s.entities).map WaitCond.of) := by
    rw [List.perm_ext_iff_of_nodup hs.once hnodup]
    intro w
    have hmem : w ∈ s.waitset.map Prod.fst ↔ ∃ id, (w, id) ∈ s.waitset := by simp
    rw [hmem]
    simp only [hs.waitset]
    cases w with
    | cancelGuard => simp
    | wakeGuard => simp
    | of c =>
      have hcovers := hs.covers c
      rw [← mem_nodeConds] at hcovers
      simp [← hcovers, eq_comm]
  have hlen := hperm.length_eq
  rw [List.length_map, List.length_cons, List.length_cons, List.length_map, length_nodeConds] at hlen
  omega

/-- Every index at which `wait_and_process` reads the array belongs to a filled
slot exactly when no more than 64 attachments are triggered at once; that is
so for every set of them when no more are attached, which for an executor in
sync is a bound on its nodes and their entities. -/
theorem filled_slots_iff (s : Bookkeeping ν ε) :
    (∀ ready stack failure p, s.waitAndProcess ready stack failure = .ok p →
      (s.ReadsFilled ready p ↔ (s.triggered ready).length ≤ 64)) ∧
    ((∀ ready stack failure p, s.waitAndProcess ready stack failure = .ok p → s.ReadsFilled ready p) ↔
      s.waitset.length ≤ 64) ∧
    ∀ owner : ε → ν, s.InSync → s.nodes.Nodup → (∀ n ∈ s.nodes, (s.entities n).Nodup) →
      (∀ n ∈ s.nodes, ∀ e ∈ s.entities n, owner e = n) →
      s.waitset.length = 2 + (s.nodes.map (fun n => 1 + (s.entities n).length)).sum := by
  refine ⟨fun ready stack failure p h => Bookkeeping.readsFilled_iff h, ⟨fun hall => ?_, fun hfew ready stack failure p h => ?_⟩,
    fun owner hsync hnodes hentities howner => hsync.waitset_length hnodes hentities howner⟩
  · rw [← Bookkeeping.triggered_all]
    obtain ⟨p, hp⟩ := s.waitAndProcess_ok (fun _ => true) (fun _ => 0)
    exact (Bookkeeping.readsFilled_iff hp).mp (hall _ _ _ p hp)
  · exact (Bookkeeping.readsFilled_iff h).mpr ((Bookkeeping.triggered_length_le ready).trans hfew)

/-- An executor with one node that has the entities `es`. -/
def oneNode (es : List ε) : Bookkeeping Unit ε :=
  ((Bookkeeping.new (fun _ => es)).pushNode ()).reconcile ((Bookkeeping.new (fun _ => es)).pushNode ()).desired

theorem oneNode_reachable (es : List ε) : bookSystem.Reachable (oneNode es) :=
  .step (.init ⟨_, rfl⟩) (.addNode () _ (List.Perm.refl _))

end Load

theorem filled_slots_iff_one_entity :
    (oneNode [()]).waitset.length = 4 ∧
    ∀ ready stack failure p, (oneNode [()]).waitAndProcess ready stack failure = .ok p →
      (oneNode [()]).ReadsFilled ready p := by
  have hsync : (oneNode [()]).InSync :=
    ((Bookkeeping.kept_new (fun _ => [()])).setNodes [()] _ |>.inSync (List.Perm.refl _) (by decide)).1
  have hlen := (filled_slots_iff (oneNode [()])).2.2 (fun _ => ()) hsync (by decide) (by decide) (by decide)
  exact ⟨hlen, (filled_slots_iff (oneNode [()])).2.1.mpr (by rw [hlen]; decide)⟩

/-- A node with 62 entities, all of them triggered together with the three
guards: the loop goes on to read `triggered[64]`, one past the array. -/
theorem slot_past_array_read :
    bookSystem.Reachable (oneNode (List.finRange 62)) ∧
    ∃ p, (oneNode (List.finRange 62)).waitAndProcess (fun _ => true) (fun _ => 0) none = .ok p ∧
      64 ∈ p.reads ∧ ¬ (oneNode (List.finRange 62)).ReadsFilled (fun _ => true) p := by
  have hlen : ((oneNode (List.finRange 62)).triggered (fun _ => true)).length = 65 := by decide +kernel
  obtain ⟨p, hp⟩ : ∃ p, (oneNode (List.finRange 62)).waitAndProcess (fun _ => true) (fun _ => 0) none = .ok p :=
    Bookkeeping.waitAndProcess_ok _ _ _
  refine ⟨oneNode_reachable _, p, hp, ?_, ?_⟩
  · rw [Bookkeeping.waitAndProcess_reads hp, hlen]
    decide
  · rw [Bookkeeping.readsFilled_iff hp, hlen]
    decide

end Rcllite
