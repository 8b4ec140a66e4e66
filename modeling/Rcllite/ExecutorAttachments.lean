import Mathlib.Data.Fintype.Card
import Mathlib.Logic.Relation
import Rcllite.ExecutorWake
import Rcllite.Lib.AssocMap

/-! The attachment ids of `rcl::Executor`, over runs of `add_node`, `remove_node`,
`add_entity`, `remove_entity` and `reconcile_locked` that do not overlap. Ids come from the
64-bit counter `next_attach_id_`, which wraps; the conditions and the desired set are those
of the executor model. -/
namespace Rcllite
open Transition

/-- What the waitset can hold: the two guards of the executor, and conditions of nodes. -/
inductive WaitCond (ν ε : Type) where
  | cancelGuard
  | wakeGuard
  | of (c : Cond ν ε)
deriving DecidableEq

/-- `dds_attach_t` holds the 64 bits of `next_attach_id_`. -/
structure Bookkeeping (ν ε : Type) where
  entities : ν → List ε
  nodes : List ν
  attached : AssocMap (BitVec 64) (Attached ν ε)
  waitset : List (WaitCond ν ε × BitVec 64)
  nextAttachId : BitVec 64
  made : List (BitVec 64 × Cond ν ε)   -- every attachment made so far, the latest first

namespace Bookkeeping
variable {ν ε : Type} [DecidableEq ν] [DecidableEq ε]

/-- A fresh executor, in a process whose nodes have some entities. -/
def new (entities : ν → List ε) : Bookkeeping ν ε where
  entities := entities
  nodes := []
  attached := .empty
  waitset := [(.cancelGuard, 1), (.wakeGuard, 2)]
  nextAttachId := 2
  made := []

def conds (s : Bookkeeping ν ε) : List (Cond ν ε) := s.attached.entries.map (fun x => x.2.cond)

/-- The first loop of `reconcile_locked`. -/
def desired (s : Bookkeeping ν ε) : Desired ν ε := s.nodes.foldl (fun d n => d.addNode n (s.entities n)) []

/-- Detach conditions that dropped out of the desired set. -/
def detachStale (s : Bookkeeping ν ε) (d : Desired ν ε) : Bookkeeping ν ε :=
  let stale := s.conds.filter (fun c => ¬ d.has c)
  { s with
    attached := s.attached.eraseIf (fun x => ¬ d.has x.2.cond)
    waitset := s.waitset.filter (fun w => w.1 ∉ stale.map WaitCond.of) }

/-- `++next_attach_id_`, attach, and record the attachment under the new id. -/
def attach (s : Bookkeeping ν ε) (att : Attached ν ε) : Bookkeeping ν ε :=
  { s with
    attached := s.attached.insert (s.nextAttachId + 1) att
    waitset := (.of att.cond, s.nextAttachId + 1) :: s.waitset
    nextAttachId := s.nextAttachId + 1
    made := (s.nextAttachId + 1, att.cond) :: s.made }

-- the instance by which `c ∈ current` is decided below
instance : LawfulBEq (Cond ν ε) := inferInstance

/-- Attach conditions not yet attached; every attach call succeeds. -/
def attachNew : Desired ν ε → List (Cond ν ε) → Bookkeeping ν ε → Bookkeeping ν ε
  | [], _, s => s
  | (c, att) :: rest, current, s =>
    if c ∈ current then attachNew rest current s else attachNew rest (c :: current) (s.attach att)

/-- `reconcile_locked` with its desired set in the order of the condition handles. -/
def reconcile (s : Bookkeeping ν ε) (d : Desired ν ε) : Bookkeeping ν ε :=
  attachNew d s.conds (s.detachStale d)

def setEntities (s : Bookkeeping ν ε) (n : ν) (es : List ε) : Bookkeeping ν ε :=
  { s with entities := Function.update s.entities n es }

omit [DecidableEq ε] in
@[simp] theorem setEntities_self (s : Bookkeeping ν ε) (n : ν) (es : List ε) :
    (s.setEntities n es).entities n = es := Function.update_self ..

/-- `add_node` up to its call of `reconcile_locked`. -/
def pushNode (s : Bookkeeping ν ε) (n : ν) : Bookkeeping ν ε :=
  if n ∈ s.nodes then s else { s with nodes := s.nodes ++ [n] }

/-- `remove_node` up to its call of `reconcile_locked`. -/
def dropNode (s : Bookkeeping ν ε) (n : ν) : Bookkeeping ν ε :=
  { s with nodes := s.nodes.filter (fun m => m ≠ n) }

/-- The entity that `wait_and_process` dispatches for a triggered id. -/
def dispatched (s : Bookkeeping ν ε) (id : BitVec 64) : Option ε :=
  if id = 1 then none
  else if id = 2 then none
  else (s.attached.find? id).bind (fun att => att.entity)

end Bookkeeping

inductive BookAction (ν ε : Type) where
  | addEntity (n : ν) (e : ε)
  | removeEntity (n : ν) (e : ε)
  | addNode (n : ν)
  | removeNode (n : ν)
  | reconcile

def BookAction.Reconciles {ν ε : Type} : BookAction ν ε → Prop
  | .addEntity _ _ => False
  | .removeEntity _ _ => False
  | _ => True

/-- An entity is registered with the node whose `create_*` made it. -/
def BookAction.Respects {ν ε : Type} (owner : ε → ν) : BookAction ν ε → Prop
  | .addEntity n e => owner e = n
  | _ => True

section System
variable {ν ε : Type} [DecidableEq ν] [DecidableEq ε]

/-- The order in which handles were given out is unknown, so `reconcile_locked` may go through its desired
set in any order. -/
inductive BookStep : Bookkeeping ν ε → BookAction ν ε → Bookkeeping ν ε → Prop
  | addEntity {s : Bookkeeping ν ε} (n : ν) (e : ε) :
      BookStep s (.addEntity n e) (s.setEntities n (s.entities n ++ [e]))
  | removeEntity {s : Bookkeeping ν ε} (n : ν) (e : ε) :
      BookStep s (.removeEntity n e) (s.setEntities n ((s.entities n).filter (fun x => x ≠ e)))
  | addNode {s : Bookkeeping ν ε} (n : ν) (d : Desired ν ε) (hd : d.Perm (s.pushNode n).desired) :
      BookStep s (.addNode n) ((s.pushNode n).reconcile d)
  | removeNode {s : Bookkeeping ν ε} (n : ν) (d : Desired ν ε) (hd : d.Perm (s.dropNode n).desired) :
      BookStep s (.removeNode n) ((s.dropNode n).reconcile d)
  | reconcile {s : Bookkeeping ν ε} (d : Desired ν ε) (hd : d.Perm s.desired) :
      BookStep s .reconcile (s.reconcile d)

def bookSystem : System (Bookkeeping ν ε) (BookAction ν ε) where
  init s := ∃ entities, s = .new entities
  step := BookStep

/-- `s'` follows `s` by steps that meet `P`. -/
def Bookkeeping.Run (P : BookAction ν ε → Prop) (s s' : Bookkeeping ν ε) : Prop :=
  Relation.ReflTransGen (fun s s' => ∃ a, P a ∧ BookStep s a s') s s'

end System

/-- `attached_` is a bijection between ids and the conditions of the nodes, and the waitset holds those
conditions under those ids and the two guards under theirs. -/
structure Bookkeeping.InSync {ν ε : Type} [DecidableEq ν] [DecidableEq ε] (s : Bookkeeping ν ε) : Prop where
  covers : ∀ c, (∃ id att, s.attached.find? id = some att ∧ att.cond = c) ↔ Wanted s.nodes s.entities c
  injective : ∀ id id' att att', s.attached.find? id = some att → s.attached.find? id' = some att' →
    att.cond = att'.cond → id = id'
  waitset : ∀ w id, (w, id) ∈ s.waitset ↔
    (w = .cancelGuard ∧ id = 1) ∨ (w = .wakeGuard ∧ id = 2) ∨
      ∃ att, s.attached.find? id = some att ∧ w = .of att.cond
  once : (s.waitset.map Prod.fst).Nodup

section DesiredSet
variable {ν ε : Type} [DecidableEq ν] [DecidableEq ε]

/-- The entity whose condition this is. -/
def Cond.entity? : Cond ν ε → Option ε
  | .changeGuard _ => none
  | .entity e => some e

/-- Entries name the entity of their condition. -/
def Desired.Tagged (d : Desired ν ε) : Prop := ∀ x ∈ d, x.2.entity = x.2.cond.entity?

theorem Desired.set_tagged {d : Desired ν ε} (hd : d.Tagged) {att : Attached ν ε}
    (h : att.entity = att.cond.entity?) : (d.set att).Tagged := by
  intro x hx
  rcases List.mem_cons.mp hx with rfl | hx
  · exact h
  · exact hd x (List.mem_filter.mp hx).1

theorem Desired.addNode_tagged {d : Desired ν ε} (hd : d.Tagged) (n : ν) (es : List ε) :
    (d.addNode n es).Tagged :=
  Desired.addNode_invariant hd n es (fun _ hd => Desired.set_tagged hd rfl) fun _ _ hd => Desired.set_tagged hd rfl

namespace Bookkeeping

/-- What a reconcile needs to know of its desired set: the conditions of the nodes, filed under themselves,
with their entities. -/
theorem desired_spec (s : Bookkeeping ν ε) :
    (∀ c, s.desired.has c ↔ Wanted s.nodes s.entities c) ∧ s.desired.Keyed ∧ s.desired.Tagged := by
  have hloop : ∀ ns : List ν,
      (∀ c, Desired.has (ns.foldl (fun d n => d.addNode n (s.entities n)) []) c ↔ Wanted ns s.entities c) ∧
      Desired.Keyed (ns.foldl (fun d n => d.addNode n (s.entities n)) []) ∧
      Desired.Tagged (ns.foldl (fun d n => d.addNode n (s.entities n)) []) := by
    -- the loop handles the last node last, so the induction takes nodes off the end
    intro ns
    induction ns using List.reverseRecOn with
    | nil =>
      refine ⟨fun c => ?_, nofun, nofun⟩
      cases c <;> simp [Desired.has, Wanted]
    | append_singleton ns n ih =>
      obtain ⟨hhas, hkeyed, htagged⟩ := ih
      simp only [List.foldl_append, List.foldl_cons, List.foldl_nil]
      refine ⟨fun c => ?_, Desired.addNode_keyed hkeyed n _, Desired.addNode_tagged htagged n _⟩
      rw [Desired.addNode_has, hhas, ExecState.Wanted_snoc]
  exact hloop s.nodes

theorem desired_perm_spec {s : Bookkeeping ν ε} {d : Desired ν ε} (hd : d.Perm s.desired) :
    (∀ c, d.has c ↔ Wanted s.nodes s.entities c) ∧ d.Keyed ∧ d.Tagged := by
  obtain ⟨hhas, hkeyed, htagged⟩ := s.desired_spec
  refine ⟨fun c => ?_, fun x hx => hkeyed x (hd.mem_iff.mp hx), fun x hx => htagged x (hd.mem_iff.mp hx)⟩
  rw [← hhas]
  exact (hd.map Prod.fst).mem_iff

end Bookkeeping

end DesiredSet

namespace Bookkeeping
variable {ν ε : Type} [DecidableEq ν] [DecidableEq ε]

/-- An entry of the waitset that is accounted for. -/
def Holds (s : Bookkeeping ν ε) (id : BitVec 64) : WaitCond ν ε → Prop
  | .cancelGuard => id = 1
  | .wakeGuard => id = 2
  | .of c => ∃ att, (id, att) ∈ s.attached.entries ∧ att.cond = c

/-- Fewer than `2^64` ids have been given out, none of them twice. -/
structure Numbered (s : Bookkeeping ν ε) : Prop where
  next : s.nextAttachId.toNat = s.made.length + 2
  bounds : ∀ m ∈ s.made, 3 ≤ m.1.toNat ∧ m.1.toNat ≤ s.nextAttachId.toNat
  distinct : (s.made.map Prod.fst).Nodup

structure Kept (s : Bookkeeping ν ε) : Prop where
  numbered : s.Numbered
  recorded : ∀ x ∈ s.attached.entries, (x.1, x.2.cond) ∈ s.made
  tagged : ∀ x ∈ s.attached.entries, x.2.entity = x.2.cond.entity?
  conds : s.conds.Nodup
  waitset : ∀ w id, (w, id) ∈ s.waitset ↔ s.Holds id w
  once : (s.waitset.map Prod.fst).Nodup

omit [DecidableEq ν] [DecidableEq ε] in
theorem kept_new (entities : ν → List ε) : (new entities).Kept where
  numbered := ⟨rfl, nofun, List.nodup_nil⟩
  recorded := nofun
  tagged := nofun
  conds := List.nodup_nil
  waitset w id := by
    cases w <;> simp [new, Holds, AssocMap.empty]
  once := by simp [new]

namespace Kept
variable {s : Bookkeeping ν ε}

omit [DecidableEq ν] [DecidableEq ε] in
/-- A new id, as long as there is one. -/
theorem fresh (hI : s.Kept) (hroom : s.made.length + 1 ≤ 2^64 - 3) :
    (s.nextAttachId + 1).toNat = s.made.length + 3 ∧ s.nextAttachId + 1 ∉ s.made.map Prod.fst ∧
      s.nextAttachId + 1 ∉ s.attached.entries.map Prod.fst := by
  have hnext := hI.numbered.next
  have hid : (s.nextAttachId + 1).toNat = s.made.length + 3 := by
    have hone : (1 : BitVec 64).toNat = 1 := rfl
    rw [BitVec.toNat_add, hnext, hone]
    exact Nat.mod_eq_of_lt (by omega)
  have hmade : s.nextAttachId + 1 ∉ s.made.map Prod.fst := by
    intro h
    obtain ⟨m, hm, hmid⟩ := List.mem_map.mp h
    have hle := (hI.numbered.bounds m hm).2
    rw [hmid, hid] at hle
    omega
  -- what is attached was made
  refine ⟨hid, hmade, fun h => hmade ?_⟩
  obtain ⟨x, hx, hxid⟩ := List.mem_map.mp h
  exact List.mem_map.mpr ⟨_, hI.recorded x hx, hxid⟩

omit [DecidableEq ν] [DecidableEq ε] in
theorem attach_entries (hI : s.Kept) (hroom : s.made.length + 1 ≤ 2^64 - 3) (att : Attached ν ε) :
    (s.attach att).attached.entries = (s.nextAttachId + 1, att) :: s.attached.entries :=
  AssocMap.insert_entries _ _ (hI.fresh hroom).2.2

omit [DecidableEq ν] [DecidableEq ε] in
theorem attach (hI : s.Kept) (hroom : s.made.length + 1 ≤ 2^64 - 3) {att : Attached ν ε}
    (hc : att.cond ∉ s.conds) (he : att.entity = att.cond.entity?) : (s.attach att).Kept := by
  obtain ⟨hid, hmade, -⟩ := hI.fresh hroom
  have hentries := hI.attach_entries hroom att
  have hnew : (s.attach att).made = (s.nextAttachId + 1, att.cond) :: s.made := rfl
  have hnext : (s.attach att).nextAttachId = s.nextAttachId + 1 := rfl
  refine ⟨⟨?_, ?_, ?_⟩, ?_, ?_, ?_, ?_, ?_⟩
  · rw [hnext, hid, hnew, List.length_cons]
  · rw [hnew, hnext]
    intro m hm
    rcases List.mem_cons.mp hm with rfl | hm
    · exact ⟨by rw [hid]; omega, Nat.le_refl _⟩
    · have hb := hI.numbered.bounds m hm
      have hn := hI.numbered.next
      exact ⟨hb.1, by omega⟩
  · rw [hnew, List.map_cons]
    exact List.nodup_cons.mpr ⟨hmade, hI.numbered.distinct⟩
  · rw [hentries, hnew]
    intro x hx
    rcases List.mem_cons.mp hx with rfl | hx
    · exact List.mem_cons_self
    · exact List.mem_cons_of_mem _ (hI.recorded x hx)
  · rw [hentries]
    intro x hx
    rcases List.mem_cons.mp hx with rfl | hx
    · exact he
    · exact hI.tagged x hx
  · unfold Bookkeeping.conds
    rw [hentries, List.map_cons]
    exact List.nodup_cons.mpr ⟨hc, hI.conds⟩
  · intro w id
    change (w, id) ∈ (WaitCond.of att.cond, s.nextAttachId + 1) :: s.waitset ↔ _
    rw [List.mem_cons, hI.waitset]
    cases w with
    | cancelGuard => simp [Holds]
    | wakeGuard => simp [Holds]
    | of c =>
      unfold Holds
      rw [hentries]
      simp only [Prod.mk.injEq, WaitCond.of.injEq, List.mem_cons]
      constructor
      · rintro (⟨rfl, rfl⟩ | ⟨a, ha, hac⟩)
        · exact ⟨att, Or.inl ⟨rfl, rfl⟩, rfl⟩
        · exact ⟨a, Or.inr ha, hac⟩
      · rintro ⟨a, ⟨rfl, rfl⟩ | ha, hac⟩
        · exact Or.inl ⟨hac.symm, rfl⟩
        · exact Or.inr ⟨a, ha, hac⟩
  · -- a condition that is in the waitset is recorded in `attached_`
    change (WaitCond.of att.cond :: s.waitset.map Prod.fst).Nodup
    refine List.nodup_cons.mpr ⟨fun h => ?_, hI.once⟩
    obtain ⟨⟨w, id⟩, hw, rfl⟩ := List.mem_map.mp h
    obtain ⟨a, ha, hac⟩ := (hI.waitset _ _).mp hw
    exact hc (List.mem_map.mpr ⟨_, ha, hac⟩)

theorem detachStale (hI : s.Kept) (d : Desired ν ε) : (s.detachStale d).Kept := by
  have hsub : ∀ x, x ∈ (s.detachStale d).attached.entries ↔ x ∈ s.attached.entries ∧ d.has x.2.cond := by
    intro x
    simp [Bookkeeping.detachStale, AssocMap.eraseIf, List.mem_filter]
  have hnum : (s.detachStale d).Numbered := ⟨hI.numbered.next, hI.numbered.bounds, hI.numbered.distinct⟩
  refine ⟨hnum, fun x hx => hI.recorded x ((hsub x).mp hx).1,
    fun x hx => hI.tagged x ((hsub x).mp hx).1, ?_, ?_, hI.once.sublist (List.filter_sublist.map _)⟩
  · exact hI.conds.sublist (List.filter_sublist.map _)
  · intro w id
    have hw := hI.waitset w id
    unfold Bookkeeping.detachStale
    rw [List.mem_filter, hw]
    cases w with
    | cancelGuard => simp [Holds]
    | wakeGuard => simp [Holds]
    | of c =>
      simp only [Holds, List.mem_map, List.mem_filter, WaitCond.of.injEq, exists_eq_right, decide_eq_true_eq]
      constructor
      · rintro ⟨⟨att, hatt, rfl⟩, hstale⟩
        have hd : d.has att.cond := by
          by_contra hno
          exact hstale ⟨List.mem_map.mpr ⟨_, hatt, rfl⟩, hno⟩
        exact ⟨att, (hsub _).mpr ⟨hatt, hd⟩, rfl⟩
      · rintro ⟨att, hatt, rfl⟩
        obtain ⟨hmem, hd⟩ := (hsub _).mp hatt
        exact ⟨⟨att, hmem, rfl⟩, fun h => h.2 hd⟩

end Kept

/-- Attachments are only ever added to the record. -/
theorem attachNew_made (d : Desired ν ε) (current : List (Cond ν ε)) (s : Bookkeeping ν ε) :
    s.made <:+ (attachNew d current s).made := by
  induction d generalizing current s with
  | nil => exact List.suffix_rfl
  | cons x rest ih =>
    obtain ⟨c, att⟩ := x
    rw [attachNew]
    split_ifs
    · exact ih current s
    · exact (List.suffix_cons _ _).trans (ih (c :: current) (s.attach att))

theorem reconcile_made (s : Bookkeeping ν ε) (d : Desired ν ε) : s.made <:+ (s.reconcile d).made :=
  attachNew_made d s.conds (s.detachStale d)

/-- Whatever happened to the ids, a reconcile leaves no condition attached that it does not want. -/
theorem attachNew_conds_sub (d : Desired ν ε) (hd : d.Keyed) (current : List (Cond ν ε)) (s : Bookkeeping ν ε) :
    ∀ x ∈ (attachNew d current s).attached.entries, x ∈ s.attached.entries ∨ d.has x.2.cond := by
  induction d generalizing current s with
  | nil => exact fun x hx => Or.inl hx
  | cons y rest ih =>
    obtain ⟨c, att⟩ := y
    have hatt : att.cond = c := hd (c, att) List.mem_cons_self
    have hrest : Desired.Keyed rest := fun z hz => hd z (List.mem_cons_of_mem _ hz)
    rw [attachNew]
    intro x hx
    split_ifs at hx
    · rcases ih hrest current s x hx with h | h
      · exact Or.inl h
      · exact Or.inr (List.mem_cons_of_mem _ h)
    · rcases ih hrest (c :: current) (s.attach att) x hx with h | h
      · rcases List.mem_cons.mp h with rfl | h
        · exact Or.inr (hatt ▸ List.mem_cons_self)
        · exact Or.inl (List.mem_filter.mp h).1
      · exact Or.inr (List.mem_cons_of_mem _ h)

theorem reconcile_conds_sub {d : Desired ν ε} (hd : d.Keyed) (s : Bookkeeping ν ε) :
    ∀ c ∈ (s.reconcile d).conds, d.has c := by
  intro c hc
  obtain ⟨x, hx, rfl⟩ := List.mem_map.mp hc
  rcases attachNew_conds_sub d hd _ _ x hx with h | h
  · have hkeep := (List.mem_filter.mp h).2
    simpa using hkeep
  · exact h

/-- The same attachments with ids that never wrap, as in the executor model. -/
def toAttachments (s : Bookkeeping ν ε) : Attachments ν ε where
  attached := s.attached.entries.map (fun x => (x.1.toNat, x.2))
  waitset := s.waitset.filterMap (fun w => match w.1 with
    | .of c => some (c, w.2.toNat)
    | _ => none)
  nextAttachId := s.nextAttachId.toNat

omit [DecidableEq ν] [DecidableEq ε] in
theorem toAttachments_attached (s : Bookkeeping ν ε) :
    s.toAttachments.attached.map (fun x => x.2.cond) = s.conds := by
  simp [toAttachments, conds]

namespace Kept
variable {s : Bookkeeping ν ε}

omit [DecidableEq ν] [DecidableEq ε] in
theorem toAttachments_matched (hI : s.Kept) : s.toAttachments.Matched := by
  intro c
  rw [toAttachments_attached]
  constructor
  · intro h
    obtain ⟨⟨c', i⟩, hw, rfl⟩ := List.mem_map.mp h
    obtain ⟨⟨w, id⟩, hmem, hw⟩ := List.mem_filterMap.mp hw
    cases w with
    | cancelGuard => cases hw
    | wakeGuard => cases hw
    | of k =>
      cases hw
      obtain ⟨att, hatt, rfl⟩ := (hI.waitset _ _).mp hmem
      exact List.mem_map.mpr ⟨_, hatt, rfl⟩
  · intro h
    obtain ⟨⟨id, att⟩, hatt, rfl⟩ := List.mem_map.mp h
    have hw : (WaitCond.of att.cond, id) ∈ s.waitset := (hI.waitset _ _).mpr ⟨att, hatt, rfl⟩
    exact List.mem_map.mpr ⟨(att.cond, id.toNat), List.mem_filterMap.mpr ⟨_, hw, rfl⟩, rfl⟩

theorem detachStale_toAttachments (d : Desired ν ε) :
    (s.detachStale d).toAttachments = s.toAttachments.detachStale d := by
  have hstale : ((s.attached.entries.map (fun x => (x.1.toNat, x.2))).filter (fun x => ¬ d.has x.2.cond)).map
      (fun x => x.2.cond) = s.conds.filter (fun c => ¬ d.has c) := by
    simp [Bookkeeping.conds, List.filter_map, Function.comp_def]
  unfold toAttachments Bookkeeping.detachStale Attachments.detachStale
  dsimp only
  rw [hstale]
  congr 1
  · simp [AssocMap.eraseIf, List.filter_map, Function.comp_def]
  · rw [List.filter_filterMap, List.filterMap_filter]
    congr 1
    funext w
    obtain ⟨w, id⟩ := w
    cases w with
    | cancelGuard => simp
    | wakeGuard => simp
    | of c => by_cases h : c ∈ s.conds.filter (fun c => ¬ d.has c) <;> simp_all [Option.filter]

omit [DecidableEq ν] [DecidableEq ε] in
theorem attach_toAttachments (hI : s.Kept) (hroom : s.made.length + 1 ≤ 2^64 - 3) (att : Attached ν ε) :
    (s.attach att).toAttachments = s.toAttachments.attach att := by
  have hid : (s.nextAttachId + 1).toNat = s.nextAttachId.toNat + 1 := by
    rw [(hI.fresh hroom).1, hI.numbered.next]
  unfold toAttachments Attachments.attach
  rw [hI.attach_entries hroom att]
  simp only [Bookkeeping.attach, List.map_cons, List.filterMap_cons, hid]

/-- The loop that attaches: the record is kept, ids that are there stay, and with room for the new ids it
is the loop of the executor model. -/
theorem attachNew (d : Desired ν ε) (hd : d.Keyed) (ht : d.Tagged) (current : List (Cond ν ε))
    {s : Bookkeeping ν ε} (hI : s.Kept) (hcur : s.conds ⊆ current)
    (hroom : (Bookkeeping.attachNew d current s).made.length ≤ 2^64 - 3) :
    (Bookkeeping.attachNew d current s).Kept ∧
    s.attached.entries ⊆ (Bookkeeping.attachNew d current s).attached.entries ∧
    (Bookkeeping.attachNew d current s).toAttachments = Attachments.attachNew d current s.toAttachments := by
  induction d generalizing current s with
  | nil => exact ⟨hI, List.Subset.refl _, rfl⟩
  | cons x rest ih =>
    obtain ⟨c, att⟩ := x
    -- the entry is filed under its own condition, so `c` is what gets attached
    have hatt : att.cond = c := hd (c, att) List.mem_cons_self
    have hrest : Desired.Keyed rest := fun y hy => hd y (List.mem_cons_of_mem _ hy)
    have htrest : Desired.Tagged rest := fun y hy => ht y (List.mem_cons_of_mem _ hy)
    rw [Bookkeeping.attachNew] at hroom ⊢
    rw [Attachments.attachNew]
    by_cases hc : c ∈ current
    · rw [if_pos hc] at hroom ⊢
      rw [if_pos hc]
      exact ih hrest htrest current hI hcur hroom
    · rw [if_neg hc] at hroom ⊢
      rw [if_neg hc]
      have hlen : s.made.length + 1 ≤ 2^64 - 3 :=
        (attachNew_made rest (c :: current) (s.attach att)).length_le.trans hroom
      have hnew : att.cond ∉ s.conds := fun h => hc (hatt ▸ hcur h)
      have hentries := hI.attach_entries hlen att
      have hI' := hI.attach hlen hnew (ht (c, att) List.mem_cons_self)
      have hcur' : (s.attach att).conds ⊆ c :: current := by
        unfold Bookkeeping.conds
        rw [hentries, List.map_cons, hatt]
        exact List.cons_subset_cons c hcur
      obtain ⟨hkept, hsub, heq⟩ := ih hrest htrest (c :: current) hI' hcur' hroom
      rw [hI.attach_toAttachments hlen] at heq
      refine ⟨hkept, fun y hy => hsub ?_, heq⟩
      rw [hentries]
      exact List.mem_cons_of_mem _ hy

/-- With room for the new ids, `reconcile_locked` keeps the record and is the reconcile of the executor
model. -/
theorem reconcile (hI : s.Kept) {d : Desired ν ε} (hd : d.Keyed) (ht : d.Tagged)
    (hroom : (s.reconcile d).made.length ≤ 2^64 - 3) :
    (s.reconcile d).Kept ∧ (s.reconcile d).toAttachments = s.toAttachments.apply d ∧
    ∀ x ∈ s.attached.entries, d.has x.2.cond → x ∈ (s.reconcile d).attached.entries := by
  have hcur : (s.detachStale d).conds ⊆ s.conds := (List.filter_sublist.map _).subset
  obtain ⟨hkept, hsub, heq⟩ := attachNew d hd ht s.conds (hI.detachStale d) hcur hroom
  refine ⟨hkept, ?_, fun x hx hc => hsub (List.mem_filter.mpr ⟨hx, by simpa using hc⟩)⟩
  unfold Bookkeeping.reconcile
  rw [heq, detachStale_toAttachments, Attachments.apply, toAttachments_attached]

end Kept

theorem attachNew_nodes (d : Desired ν ε) (current : List (Cond ν ε)) (s : Bookkeeping ν ε) :
    (attachNew d current s).nodes = s.nodes ∧ (attachNew d current s).entities = s.entities := by
  induction d generalizing current s with
  | nil => exact ⟨rfl, rfl⟩
  | cons x rest ih =>
    obtain ⟨c, att⟩ := x
    rw [attachNew]
    split_ifs
    · exact ih current s
    · exact ih (c :: current) (s.attach att)

theorem reconcile_nodes (s : Bookkeeping ν ε) (d : Desired ν ε) :
    (s.reconcile d).nodes = s.nodes ∧ (s.reconcile d).entities = s.entities :=
  attachNew_nodes d s.conds (s.detachStale d)

omit [DecidableEq ν] [DecidableEq ε] in
/-- The nodes and their entities have no part in the record. -/
theorem Kept.setNodes {s : Bookkeeping ν ε} (hI : s.Kept) (ns : List ν) (lists : ν → List ε) :
    Kept { s with nodes := ns, entities := lists } where
  numbered := ⟨hI.numbered.next, hI.numbered.bounds, hI.numbered.distinct⟩
  recorded := hI.recorded
  tagged := hI.tagged
  conds := hI.conds
  waitset w id := by
    rw [hI.waitset]
    cases w <;> exact Iff.rfl
  once := hI.once

/-- After a reconcile the attachments are those of the nodes, and what was attached and is still wanted
keeps its id. -/
theorem Kept.inSync {s : Bookkeeping ν ε} (hI : s.Kept) {d : Desired ν ε} (hd : d.Perm s.desired)
    (hroom : (s.reconcile d).made.length ≤ 2^64 - 3) :
    (s.reconcile d).InSync ∧
    ∀ id att, s.attached.find? id = some att → Wanted s.nodes s.entities att.cond →
      (s.reconcile d).attached.find? id = some att := by
  obtain ⟨hhas, hkeyed, htagged⟩ := desired_perm_spec hd
  obtain ⟨hkept, heq, hstay⟩ := hI.reconcile hkeyed htagged hroom
  obtain ⟨hnodes, hentities⟩ := s.reconcile_nodes d
  obtain ⟨hconds, hmatched⟩ := Attachments.apply_conds hI.toAttachments_matched hkeyed
  have hcovers : ∀ c, c ∈ (s.reconcile d).conds ↔ Wanted s.nodes s.entities c := by
    intro c
    rw [← hhas, ← hconds, hmatched c, ← heq, toAttachments_attached]
  refine ⟨⟨?_, ?_, ?_, hkept.once⟩, ?_⟩
  · intro c
    rw [hnodes, hentities]
    refine Iff.trans ?_ (hcovers c)
    constructor
    · rintro ⟨id, att, hatt, rfl⟩
      exact List.mem_map.mpr ⟨_, (AssocMap.find?_eq_some_iff _ _ _).mp hatt, rfl⟩
    · intro h
      obtain ⟨⟨id, att⟩, hx, hc⟩ := List.mem_map.mp h
      exact ⟨id, att, (AssocMap.find?_eq_some_iff _ _ _).mpr hx, hc⟩
  · intro id id' att att' h h' hc
    rw [AssocMap.find?_eq_some_iff] at h h'
    have hsame := List.inj_on_of_nodup_map hkept.conds h h' hc
    exact congrArg Prod.fst hsame
  · intro w id
    rw [hkept.waitset]
    cases w with
    | cancelGuard => simp [Holds]
    | wakeGuard => simp [Holds]
    | of c => simp [Holds, AssocMap.find?_eq_some_iff, eq_comm (a := c)]
  · intro id att hatt hw
    rw [AssocMap.find?_eq_some_iff] at hatt ⊢
    exact hstay _ hatt ((hhas _).mpr hw)

end Bookkeeping

namespace BookStep
variable {ν ε : Type} [DecidableEq ν] [DecidableEq ε] {s s' : Bookkeeping ν ε} {a : BookAction ν ε}

/-- What a step can do: change the lists of entities, or reconcile for a new list of nodes. -/
theorem inversion (h : BookStep s a s') :
    (¬ a.Reconciles ∧ ∃ lists, s' = { s with entities := lists } ∧
      ∀ owner : ε → ν, a.Respects owner → (∀ m, ∀ e ∈ s.entities m, owner e = m) →
        ∀ m, ∀ e ∈ lists m, owner e = m) ∨
    (∃ ns d, d.Perm (Bookkeeping.desired { s with nodes := ns }) ∧
      s' = Bookkeeping.reconcile { s with nodes := ns } d ∧
      (∀ n, a ≠ .addNode n → n ∉ s.nodes → n ∉ ns) ∧ ∀ n, a = .removeNode n → n ∉ ns) := by
  cases h with
  | addEntity n e =>
    refine Or.inl ⟨id, _, rfl, fun owner hown hs m x hx => ?_⟩
    by_cases hm : m = n
    · subst hm
      rw [Function.update_self, List.mem_append, List.mem_singleton] at hx
      rcases hx with hx | rfl
      · exact hs m x hx
      · exact hown
    · rw [Function.update_of_ne hm] at hx
      exact hs m x hx
  | removeEntity n e =>
    refine Or.inl ⟨id, _, rfl, fun owner _ hs m x hx => hs m x ?_⟩
    by_cases hm : m = n
    · subst hm
      rw [Function.update_self] at hx
      exact (List.mem_filter.mp hx).1
    · rwa [Function.update_of_ne hm] at hx
  | addNode n d hd =>
    right
    unfold Bookkeeping.pushNode at hd ⊢
    split_ifs at hd ⊢ with hn
    · exact ⟨s.nodes, d, hd, rfl, fun _ _ h => h, nofun⟩
    · refine ⟨s.nodes ++ [n], d, hd, rfl, fun m hne hm => ?_, nofun⟩
      rw [List.mem_append, List.mem_singleton]
      rintro (h | rfl)
      · exact hm h
      · exact hne rfl
  | removeNode n d hd =>
    refine Or.inr ⟨_, d, hd, rfl, fun m _ hm h => hm (List.mem_filter.mp h).1, ?_⟩
    intro m hm
    cases hm
    simp
  | reconcile d hd => exact Or.inr ⟨s.nodes, d, hd, rfl, fun _ _ h => h, nofun⟩

theorem made_suffix (h : BookStep s a s') : s.made <:+ s'.made := by
  obtain ⟨-, lists, rfl, -⟩ | ⟨ns, d, -, rfl, -⟩ := h.inversion
  · exact List.suffix_rfl
  · exact Bookkeeping.reconcile_made { s with nodes := ns } d

theorem kept (hI : s.Kept) (hroom : s'.made.length ≤ 2^64 - 3) (h : BookStep s a s') : s'.Kept := by
  obtain ⟨-, lists, rfl, -⟩ | ⟨ns, d, hd, rfl, -⟩ := h.inversion
  · exact hI.setNodes s.nodes lists
  · obtain ⟨-, hkeyed, htagged⟩ := Bookkeeping.desired_perm_spec hd
    exact ((hI.setNodes ns s.entities).reconcile hkeyed htagged hroom).1

end BookStep

namespace Bookkeeping
variable {ν ε : Type} [DecidableEq ν] [DecidableEq ε] {s s' : Bookkeeping ν ε}

theorem kept_reachable (h : bookSystem.Reachable s) (hroom : s.made.length ≤ 2^64 - 3) : s.Kept := by
  induction h with
  | init h =>
    obtain ⟨entities, rfl⟩ := h
    exact kept_new entities
  | step h hs ih =>
    exact BookStep.kept (ih ((BookStep.made_suffix hs).length_le.trans hroom)) hroom hs

theorem Run.made_suffix {P : BookAction ν ε → Prop} (h : Run P s s') : s.made <:+ s'.made := by
  induction h with
  | refl => exact List.suffix_rfl
  | tail _ hs ih =>
    obtain ⟨a, -, hs⟩ := hs
    exact ih.trans hs.made_suffix

omit [DecidableEq ν] [DecidableEq ε] in
/-- An id found later is the id of the same condition. -/
theorem Kept.find?_cond (hs : s.Kept) {id : BitVec 64} {c : Cond ν ε} (hc : (id, c) ∈ s.made)
    {att : Attached ν ε} (hatt : s.attached.find? id = some att) : att.cond = c := by
  have hmade := hs.recorded _ ((AssocMap.find?_eq_some_iff _ _ _).mp hatt)
  have hsame := List.inj_on_of_nodup_map hs.numbered.distinct hmade hc rfl
  exact congrArg Prod.snd hsame

omit [DecidableEq ν] [DecidableEq ε] in
/-- Only an entity that is attached is dispatched. -/
theorem Kept.dispatched_attached (hs : s.Kept) {id : BitVec 64} {e : ε} (he : s.dispatched id = some e) :
    .entity e ∈ s.conds := by
  unfold dispatched at he
  split_ifs at he
  obtain ⟨att, hfind, hent⟩ := Option.bind_eq_some_iff.mp he
  have hmem := (AssocMap.find?_eq_some_iff _ _ _).mp hfind
  have htag := hs.tagged _ hmem
  refine List.mem_map.mpr ⟨_, hmem, ?_⟩
  -- the entry names the entity of its condition, so the condition is no change guard
  rw [hent] at htag
  cases hcond : att.cond with
  | changeGuard m =>
    rw [hcond] at htag
    cases htag
  | entity e' =>
    rw [hcond] at htag
    cases htag
    rfl

/-- The nodes have not got `n`, no list has an entity of another node, and no entity of `n` is attached. -/
structure Without (owner : ε → ν) (n : ν) (s : Bookkeeping ν ε) : Prop where
  removed : n ∉ s.nodes
  lists : ∀ m, ∀ e ∈ s.entities m, owner e = m
  free : ∀ e, .entity e ∈ s.conds → owner e ≠ n

theorem without_reconcile {owner : ε → ν} {n : ν} (hn : n ∉ s.nodes)
    (hl : ∀ m, ∀ e ∈ s.entities m, owner e = m) {d : Desired ν ε} (hd : d.Perm s.desired) :
    (s.reconcile d).Without owner n := by
  obtain ⟨hhas, hkeyed, -⟩ := desired_perm_spec hd
  obtain ⟨hnodes, hentities⟩ := s.reconcile_nodes d
  refine ⟨fun h => hn (hnodes ▸ h), fun m e he => hl m e (hentities ▸ he), fun e he => ?_⟩
  obtain ⟨m, hm, hmem⟩ := (hhas _).mp (reconcile_conds_sub hkeyed s _ he)
  rw [hl m e hmem]
  rintro rfl
  exact hn hm

theorem Without.run {owner : ε → ν} {n : ν} (hw : s.Without owner n)
    (h : Run (fun a => a ≠ .addNode n ∧ a.Respects owner) s s') : s'.Without owner n := by
  induction h with
  | refl => exact hw
  | @tail r s' _ hs ih =>
    obtain ⟨a, ⟨hne, hown⟩, hs⟩ := hs
    obtain ⟨-, lists, rfl, hl⟩ | ⟨ns, d, hd, rfl, hnew, -⟩ := hs.inversion
    · exact ⟨ih.removed, hl owner hown ih.lists, ih.free⟩
    · exact without_reconcile (s := { r with nodes := ns }) (hnew n hne ih.removed) ih.lists hd

/-- As long as the ids last, none is used twice, every reconcile leaves the attachments in sync and keeps
the ids of what stays, a triggered id is dispatched to the entity that triggered or to nothing, and the
entities of a removed node are not dispatched until it is added again. -/
theorem attachments_kept (s : Bookkeeping ν ε) (h : bookSystem.Reachable s)
    (hroom : s.made.length ≤ 2^64 - 3) :
    ((s.made.map Prod.fst).Nodup ∧ (∀ m ∈ s.made, 3 ≤ m.1.toNat) ∧
      ∀ id att, s.attached.find? id = some att → (id, att.cond) ∈ s.made) ∧
    (∀ r a, bookSystem.Reachable r → BookStep r a s → a.Reconciles →
      s.InSync ∧ ∀ id att, r.attached.find? id = some att → Wanted s.nodes s.entities att.cond →
        s.attached.find? id = some att) ∧
    (∀ r c id, bookSystem.Reachable r → Run (fun _ => True) r s → (.of c, id) ∈ r.waitset →
      s.dispatched id = none ∨ ∃ e, c = .entity e ∧ s.dispatched id = some e) ∧
    (∀ (owner : ε → ν) r r' n, (∀ m, ∀ e ∈ r.entities m, owner e = m) → BookStep r (.removeNode n) r' →
      Run (fun a => a ≠ .addNode n ∧ a.Respects owner) r' s →
      ∀ id e, s.dispatched id = some e → e ∉ s.entities n ∧ owner e ≠ n) := by
  have hI := kept_reachable h hroom
  refine ⟨⟨hI.numbered.distinct, fun m hm => (hI.numbered.bounds m hm).1, fun id att hatt =>
    hI.recorded _ ((AssocMap.find?_eq_some_iff _ _ _).mp hatt)⟩, ?_, ?_, ?_⟩
  · intro r a hr hs ha
    -- the earlier state has made no more attachments, so it has room too
    have hIr := kept_reachable hr (hs.made_suffix.length_le.trans hroom)
    obtain ⟨hno, -⟩ | ⟨ns, d, hd, rfl, -⟩ := hs.inversion
    · exact absurd ha hno
    · obtain ⟨hnodes, hentities⟩ := reconcile_nodes { r with nodes := ns } d
      obtain ⟨hsync, hstay⟩ := (hIr.setNodes ns r.entities).inSync hd hroom
      refine ⟨hsync, fun id att hatt hw => hstay id att hatt ?_⟩
      rwa [hnodes, hentities] at hw
  · intro r c id hr hrun hw
    have hIr := kept_reachable hr (hrun.made_suffix.length_le.trans hroom)
    obtain ⟨att, hatt, hc⟩ := (hIr.waitset _ _).mp hw
    -- the id was given to `c`, and it is given only once
    have hmade : (id, c) ∈ s.made := hrun.made_suffix.subset (hc ▸ hIr.recorded _ hatt)
    unfold dispatched
    split_ifs
    · exact Or.inl rfl
    · exact Or.inl rfl
    · cases hfind : s.attached.find? id with
      | none => exact Or.inl rfl
      | some att' =>
        have hcond := hI.find?_cond hmade hfind
        have htag := hI.tagged _ ((AssocMap.find?_eq_some_iff _ _ _).mp hfind)
        rw [Option.bind_some, htag, hcond]
        cases c with
        | changeGuard n => exact Or.inl rfl
        | entity e => exact Or.inr ⟨e, rfl, rfl⟩
  · intro owner r r' n hl hs hrun id e he
    obtain ⟨hno, -⟩ | ⟨ns, d, hd, rfl, -, hgone⟩ := hs.inversion
    · exact absurd trivial hno
    · have hstart : (reconcile { r with nodes := ns } d).Without owner n :=
        without_reconcile (s := { r with nodes := ns }) (hgone n rfl) hl hd
      have hwithout := hstart.run hrun
      have hne : owner e ≠ n := hwithout.free e (hI.dispatched_attached he)
      exact ⟨fun h => hne (hwithout.lists n e h), hne⟩

/-- One node with one entity: both conditions get an id, and the reconcile is in sync. -/
theorem attachments_kept_one_node :
    ∃ s : Bookkeeping Unit Unit, bookSystem.Reachable s ∧ s.made.length ≤ 2^64 - 3 ∧ s.InSync ∧
      s.dispatched 3 = some () := by
  have h0 : bookSystem.Reachable (new (fun _ : Unit => [()])) := .init ⟨_, rfl⟩
  have hs : BookStep (new (fun _ : Unit => [()])) (.addNode ())
      ((pushNode (new (fun _ : Unit => [()])) ()).reconcile (pushNode (new (fun _ : Unit => [()])) ()).desired) :=
    .addNode () _ (List.Perm.refl _)
  have hroom : ((pushNode (new (fun _ : Unit => [()])) ()).reconcile
      (pushNode (new (fun _ : Unit => [()])) ()).desired).made.length ≤ 2^64 - 3 := by decide
  refine ⟨_, h0.step hs, hroom, ((attachments_kept _ (h0.step hs) hroom).2.1 _ _ h0 hs trivial).1, ?_⟩
  decide

/-- A condition that is wanted and not attached gets a new attachment. -/
theorem attachNew_grows {d : Desired ν ε} {c : Cond ν ε} (hc : d.has c) {current : List (Cond ν ε)}
    (hcur : c ∉ current) (s : Bookkeeping ν ε) : s.made.length < (attachNew d current s).made.length := by
  induction d with
  | nil => exact absurd hc List.not_mem_nil
  | cons x rest ih =>
    obtain ⟨k, att⟩ := x
    rw [attachNew]
    split_ifs with hk
    · rcases List.mem_cons.mp hc with rfl | hc
      · exact absurd hk hcur
      · exact ih hc
    · exact (attachNew_made rest (k :: current) (s.attach att)).length_le

/-- The only node has no entity, and none is attached. -/
structure Idle (s : Bookkeeping Unit Unit) : Prop where
  nodes : s.nodes = [()]
  entities : s.entities () = []
  conds : Cond.entity () ∉ s.conds

/-- After a reconcile with an empty list the entity is detached. -/
theorem idle_reconcile {s : Bookkeeping Unit Unit} (hn : s.nodes = [()]) (he : s.entities () = []) :
    (s.reconcile s.desired).Idle := by
  obtain ⟨hhas, hkeyed, -⟩ := s.desired_spec
  obtain ⟨hnodes, hentities⟩ := s.reconcile_nodes s.desired
  refine ⟨hnodes.trans hn, (congrFun hentities ()).trans he, fun h => ?_⟩
  obtain ⟨m, -, hm⟩ := (hhas _).mp (reconcile_conds_sub hkeyed s _ h)
  rw [he] at hm
  cases hm

/-- Adding the entity and removing it again uses up an id. -/
theorem Idle.round {s : Bookkeeping Unit Unit} (hs : s.Idle) (h : bookSystem.Reachable s) :
    ∃ s' : Bookkeeping Unit Unit, bookSystem.Reachable s' ∧ s'.Idle ∧ s.made.length < s'.made.length := by
  -- add the entity, reconcile, remove it, reconcile
  have h1 := h.step (.addEntity () ())
  have hwant : Wanted (s.setEntities () (s.entities () ++ [()])).nodes
      (s.setEntities () (s.entities () ++ [()])).entities (.entity ()) := by
    refine ⟨(), ?_, ?_⟩
    · change () ∈ s.nodes
      rw [hs.nodes]
      exact List.mem_singleton_self ()
    · rw [setEntities_self]
      exact List.mem_append_right _ (List.mem_singleton_self ())
  generalize hs1 : s.setEntities () (s.entities () ++ [()]) = s1 at h1 hwant
  have hmade1 : s1.made = s.made := by rw [← hs1]; rfl
  have hnodes1 : s1.nodes = [()] := by rw [← hs1]; exact hs.nodes
  have hconds1 : Cond.entity () ∉ s1.conds := by rw [← hs1]; exact hs.conds
  have h2 := h1.step (.reconcile _ (List.Perm.refl _))
  have hgrow : s1.made.length < (s1.reconcile s1.desired).made.length :=
    attachNew_grows ((s1.desired_spec.1 _).mpr hwant) hconds1 (s1.detachStale s1.desired)
  have hnodes2 : (s1.reconcile s1.desired).nodes = [()] :=
    (s1.reconcile_nodes s1.desired).1.trans hnodes1
  generalize s1.reconcile s1.desired = s2 at h2 hgrow hnodes2
  have h3 := h2.step (.removeEntity () ())
  have h4 := h3.step (.reconcile _ (List.Perm.refl _))
  refine ⟨_, h4, idle_reconcile hnodes2 ?_, ?_⟩
  · rw [setEntities_self]
    simp
  · exact lt_of_lt_of_le (hmade1 ▸ hgrow) (reconcile_made _ _).length_le

theorem idle_after (k : ℕ) :
    ∃ s : Bookkeeping Unit Unit, bookSystem.Reachable s ∧ s.Idle ∧ k ≤ s.made.length := by
  induction k with
  | zero =>
    have h0 : bookSystem.Reachable (new (fun _ : Unit => ([] : List Unit))) := .init ⟨_, rfl⟩
    exact ⟨_, h0.step (.addNode () _ (List.Perm.refl _)), idle_reconcile rfl rfl, Nat.zero_le _⟩
  | succ k ih =>
    obtain ⟨s, h, hs, hk⟩ := ih
    obtain ⟨s', h', hs', hlt⟩ := hs.round h
    exact ⟨s', h', hs', Nat.lt_of_le_of_lt hk hlt⟩

/-- Two nodes, the first with an entity. -/
def twoNodes : Bookkeeping Bool Unit := new (fun n => if n then [] else [()])

/-- `remove_entity` at one node and `add_entity` at the other. -/
def move (s : Bookkeeping Bool Unit) (n : Bool) : Bookkeeping Bool Unit :=
  let r := s.setEntities n ((s.entities n).filter (fun x => x ≠ ()))
  r.setEntities (!n) (r.entities (!n) ++ [()])

theorem move_run (s : Bookkeeping Bool Unit) (n : Bool) : Run (fun a => a ≠ .addNode false) s (s.move n) := by
  refine (Relation.ReflTransGen.single ⟨_, ?_, .removeEntity n ()⟩).tail ⟨_, ?_, .addEntity (!n) ()⟩
  · simp
  · simp

/-- The counter wraps, so that after `2^64` attachments an id has been used twice; and an entity that is
moved to another node and back is dispatched although its node was removed. -/
theorem attachment_ids_reused :
    (∃ s : Bookkeeping Unit Unit, bookSystem.Reachable s ∧ ¬ (s.made.map Prod.fst).Nodup) ∧
    ∃ r r' s : Bookkeeping Bool Unit, bookSystem.Reachable r ∧ BookStep r (.removeNode false) r' ∧
      Run (fun a => a ≠ .addNode false) r' s ∧ ∃ id, s.dispatched id = some () ∧ () ∈ s.entities false := by
  constructor
  · obtain ⟨s, h, -, hlen⟩ := idle_after (2^64 + 1)
    refine ⟨s, h, fun hnd => ?_⟩
    -- there are only `2^64` ids
    have hfin : ((s.made.map Prod.fst).map BitVec.toFin).Nodup :=
      hnd.map (fun a b hab => BitVec.toFin_inj.mp hab)
    have hcard := hfin.length_le_card
    rw [Fintype.card_fin, List.length_map, List.length_map] at hcard
    omega
  · have h0 : bookSystem.Reachable twoNodes := .init ⟨_, rfl⟩
    have h1 := h0.step (.addNode false _ (List.Perm.refl _))
    have h2 := h1.step (.addNode true _ (List.Perm.refl _))
    have h3 := h2.step (.removeEntity false ())
    have h4 := h3.step (.addEntity true ())
    refine ⟨_, _, _, h4, .removeNode false _ (List.Perm.refl _), move_run _ true, 3, ?_⟩
    decide

end Bookkeeping

end Rcllite
