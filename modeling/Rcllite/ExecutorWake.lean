import Rcllite.ExecutorModel

/-! Whether a blocked executor is attached to what its nodes contain. A node is
either seen as it is, or something that will wake the executor is under way;
the recorded epoch tells the two apart, provided list and epoch were read
together. -/
namespace Rcllite
open Transition
variable {ν ε : Type} [DecidableEq ν] [DecidableEq ε]

section Attach

/-- Entries are filed under their own condition. -/
def Desired.Keyed (d : Desired ν ε) : Prop := ∀ x ∈ d, x.2.cond = x.1

/-- The waitset holds exactly the conditions recorded in `attached_`. -/
def Attachments.Matched (A : Attachments ν ε) : Prop :=
  ∀ c, c ∈ A.conds ↔ c ∈ A.attached.map (fun x => x.2.cond)

theorem Desired.set_has (d : Desired ν ε) (att : Attached ν ε) (c : Cond ν ε) :
    (d.set att).has c ↔ c = att.cond ∨ d.has c := by
  unfold Desired.has Desired.set
  rw [List.map_cons, List.mem_cons]
  by_cases h : c = att.cond
  · simp [h]
  · simp only [h, false_or, List.mem_map, List.mem_filter]
    constructor
    · rintro ⟨x, ⟨hx, -⟩, rfl⟩
      exact ⟨x, hx, rfl⟩
    · rintro ⟨x, hx, rfl⟩
      exact ⟨x, ⟨hx, by simpa using h⟩, rfl⟩

theorem Desired.set_keyed {d : Desired ν ε} (hd : d.Keyed) (att : Attached ν ε) : (d.set att).Keyed := by
  intro x hx
  rcases List.mem_cons.mp hx with rfl | hx
  · rfl
  · exact hd x (List.mem_filter.mp hx).1

theorem Desired.addNode_has (d : Desired ν ε) (n : ν) (es : List ε) (c : Cond ν ε) :
    (d.addNode n es).has c ↔ d.has c ∨ c = .changeGuard n ∨ ∃ e ∈ es, c = .entity e := by
  unfold Desired.addNode
  -- the loop over the entities, from any map it may start with
  have hloop : ∀ (es : List ε) (d : Desired ν ε),
      Desired.has (es.foldl (fun d e => d.set ⟨.entity e, n, some e⟩) d) c ↔
        d.has c ∨ ∃ e ∈ es, c = .entity e := by
    intro es
    induction es with
    | nil => simp
    | cons e es ih =>
      intro d
      rw [List.foldl_cons, ih, Desired.set_has]
      simp only [List.mem_cons, exists_eq_or_imp]
      tauto
  rw [hloop, Desired.set_has]
  tauto

/-- What every entry that a node adds keeps holds after the node. -/
theorem Desired.addNode_invariant {P : Desired ν ε → Prop} {d : Desired ν ε} (hd : P d) (n : ν) (es : List ε)
    (hguard : ∀ d, P d → P (d.set ⟨.changeGuard n, n, none⟩))
    (hentity : ∀ d e, P d → P (d.set ⟨.entity e, n, some e⟩)) : P (d.addNode n es) := by
  unfold Desired.addNode
  exact List.foldlRecOn es _ (hguard d hd) fun d hd e _ => hentity d e hd

theorem Desired.addNode_keyed {d : Desired ν ε} (hd : d.Keyed) (n : ν) (es : List ε) :
    (d.addNode n es).Keyed :=
  Desired.addNode_invariant hd n es (fun _ hd => Desired.set_keyed hd _) fun _ _ hd => Desired.set_keyed hd _

namespace Attachments

theorem attachNew_conds {d : Desired ν ε} (hd : d.Keyed) (current : List (Cond ν ε)) (A : Attachments ν ε)
    (c : Cond ν ε) :
    (c ∈ (attachNew d current A).conds ↔ c ∈ A.conds ∨ (d.has c ∧ c ∉ current)) ∧
    (c ∈ (attachNew d current A).attached.map (fun x => x.2.cond) ↔
      c ∈ A.attached.map (fun x => x.2.cond) ∨ (d.has c ∧ c ∉ current)) := by
  induction d generalizing current A with
  | nil => simp [attachNew, Desired.has]
  | cons x rest ih =>
    obtain ⟨k, att⟩ := x
    have hk : att.cond = k := hd (k, att) List.mem_cons_self
    have hrest : Desired.Keyed rest := fun y hy => hd y (List.mem_cons_of_mem _ hy)
    have hhas : Desired.has ((k, att) :: rest) c ↔ c = k ∨ Desired.has rest c := by
      simp [Desired.has]
    rw [attachNew, hhas]
    by_cases hcur : k ∈ current
    · rw [if_pos hcur]
      obtain ⟨h1, h2⟩ := ih hrest current A
      rw [h1, h2]
      by_cases hc : c = k
      · rw [hc]
        simp [hcur]
      · simp [hc]
    · rw [if_neg hcur]
      obtain ⟨h1, h2⟩ := ih hrest (k :: current) (A.attach att)
      have hc1 : c ∈ (A.attach att).conds ↔ c = k ∨ c ∈ A.conds := by
        simp [conds, attach, hk]
      have hc2 : c ∈ (A.attach att).attached.map (fun x => x.2.cond) ↔
          c = k ∨ c ∈ A.attached.map (fun x => x.2.cond) := by
        simp only [attach, List.map_cons, List.mem_cons, hk]
      rw [h1, h2, hc1, hc2, List.mem_cons]
      by_cases hc : c = k
      · rw [hc]
        simp [hcur]
      · simp [hc]

theorem detachStale_conds {A : Attachments ν ε} (hA : A.Matched) (d : Desired ν ε) (c : Cond ν ε) :
    (c ∈ (A.detachStale d).conds ↔ c ∈ A.conds ∧ d.has c) ∧
    (c ∈ (A.detachStale d).attached.map (fun x => x.2.cond) ↔ c ∈ A.conds ∧ d.has c) := by
  have hM := hA c
  constructor
  · simp only [detachStale, conds, List.mem_map, List.mem_filter, decide_eq_true_eq]
    constructor
    · rintro ⟨w, ⟨hw, hns⟩, rfl⟩
      have hmem : w.1 ∈ A.conds := List.mem_map_of_mem hw
      refine ⟨⟨w, hw, rfl⟩, ?_⟩
      by_contra hno
      obtain ⟨x, hx, hxc⟩ := List.mem_map.mp ((hA w.1).mp hmem)
      exact hns ⟨x, ⟨hx, hxc ▸ hno⟩, hxc⟩
    · rintro ⟨⟨w, hw, rfl⟩, hd⟩
      refine ⟨w, ⟨hw, ?_⟩, rfl⟩
      rintro ⟨x, ⟨-, hno⟩, hxc⟩
      exact hno (hxc ▸ hd)
  · rw [hM]
    simp only [detachStale, List.mem_map, List.mem_filter, decide_eq_true_eq]
    constructor
    · rintro ⟨x, ⟨hx, hd⟩, rfl⟩
      exact ⟨⟨x, hx, rfl⟩, hd⟩
    · rintro ⟨⟨x, hx, rfl⟩, hd⟩
      exact ⟨x, ⟨hx, hd⟩, rfl⟩

/-- After `reconcile_locked` exactly the desired conditions are attached. -/
theorem apply_conds {A : Attachments ν ε} (hA : A.Matched) {d : Desired ν ε} (hd : d.Keyed) :
    (∀ c, c ∈ (A.apply d).conds ↔ d.has c) ∧ (A.apply d).Matched := by
  have hboth : ∀ c, (c ∈ (A.apply d).conds ↔ d.has c) ∧
      (c ∈ (A.apply d).attached.map (fun x => x.2.cond) ↔ d.has c) := by
    intro c
    obtain ⟨h1, h2⟩ := attachNew_conds hd (A.attached.map (fun x => x.2.cond)) (A.detachStale d) c
    obtain ⟨h3, h4⟩ := detachStale_conds hA d c
    have hM := hA c
    unfold apply
    rw [h1, h2, h3, h4, ← hM]
    by_cases hc : c ∈ A.conds <;> simp [hc]
  exact ⟨fun c => (hboth c).1, fun c => (hboth c).1.trans (hboth c).2.symm⟩

end Attachments

end Attach

/-- The conditions of the nodes `ns`, given their entity lists. -/
def Wanted (ns : List ν) (lists : ν → List ε) : Cond ν ε → Prop
  | .changeGuard n => n ∈ ns
  | .entity e => ∃ n ∈ ns, e ∈ lists n

namespace ExecState

/-- `lists n` is what was read for `n`; it is still the list of `n` unless the
epoch has moved on since. -/
def Fresh (s : ExecState ν ε) (lists : ν → List ε) (n : ν) : Prop :=
  ∃ k, s.nodeEpochs n = some k ∧ k.toNat ≤ (s.node n).entityEpoch.toNat ∧
    (k = (s.node n).entityEpoch → lists n = (s.node n).entities)

/-- The recorded epoch is current, or the change guard is up, or somebody is
about to raise it. -/
def Awake (s : ExecState ν ε) (n : ν) : Prop :=
  s.nodeEpochs n = some (s.node n).entityEpoch ∨ (s.node n).changeGuard = true ∨ 0 < s.unfinished n

/-- What is attached is what was read for the current nodes. -/
def Current (s : ExecState ν ε) : Prop :=
  ∃ lists, (∀ c, c ∈ s.attachments.conds ↔ Wanted s.nodes lists c) ∧ ∀ n ∈ s.nodes, s.Fresh lists n

/-- The invariant, by what the holder of `nodes_mtx_` is doing. -/
def View (s : ExecState ν ε) : Holder ν ε → Prop
  | .free => s.Current ∧ (s.pc = .waiting → ∀ n ∈ s.nodes, s.Awake n)
  | .checking rest => s.Current ∧ ∃ done, s.nodes = done ++ rest ∧ ∀ n ∈ done, s.Awake n
  | .absorbing _ => s.Current
  | .reconciling _ rest d => d.Keyed ∧ ∃ done lists, s.nodes = done ++ rest ∧
      (∀ c, d.has c ↔ Wanted done lists c) ∧ ∀ n ∈ done, s.Fresh lists n ∧ s.Awake n
  | .reading _ n rest d => d.Keyed ∧ ∃ done lists, s.nodes = done ++ n :: rest ∧
      (∀ c, d.has c ↔ Wanted (done ++ [n]) lists c) ∧ lists n = (s.node n).entities ∧
      ∀ m ∈ done, s.Fresh lists m ∧ s.Awake m

end ExecState

structure ExecInv (s : ExecState ν ε) : Prop where
  nodup : s.nodes.Nodup
  matched : s.attachments.Matched
  view : s.View s.holder

/-- The steps that change the entities of `n`. -/
def ExecAction.Changes (a : ExecAction ν ε) (n : ν) : Prop :=
  ∃ e, a = .addEntity n e ∨ a = .removeEntity n e

/-- No node changes between the two reads that a reconcile makes of it, and no
epoch counter wraps. -/
def Untorn (s : ExecState ν ε) (a : ExecAction ν ε) : Prop :=
  ∀ n, a.Changes n → (∀ c rest d, s.holder ≠ .reading c n rest d) ∧
    (s.node n).entityEpoch.toNat + 1 < 2^64

namespace ExecState
variable {s : ExecState ν ε}

omit [DecidableEq ε] in
/-- A guard says nothing about what was read. -/
theorem fresh_setGuard (n : ν) (b : Bool) {lists : ν → List ε} {m : ν} (h : s.Fresh lists m) :
    (s.setGuard n b).Fresh lists m := by
  obtain ⟨k, hk, hrest⟩ := h
  refine ⟨k, hk, ?_⟩
  change _ ≤ (Function.update s.node n _ m).entityEpoch.toNat ∧
    (k = (Function.update s.node n _ m).entityEpoch → lists m = (Function.update s.node n _ m).entities)
  by_cases h : m = n
  · subst h
    rw [Function.update_self]
    exact hrest
  · rwa [Function.update_of_ne h]

omit [DecidableEq ν] [DecidableEq ε] in
theorem Wanted_congr {ns : List ν} {lists lists' : ν → List ε} (h : ∀ n ∈ ns, lists n = lists' n)
    (c : Cond ν ε) : Wanted ns lists c ↔ Wanted ns lists' c := by
  cases c with
  | changeGuard n => exact Iff.rfl
  | entity e =>
    constructor
    · rintro ⟨n, hn, he⟩
      exact ⟨n, hn, h n hn ▸ he⟩
    · rintro ⟨n, hn, he⟩
      exact ⟨n, hn, h n hn ▸ he⟩

omit [DecidableEq ν] [DecidableEq ε] in
theorem Wanted_snoc (ns : List ν) (n : ν) (lists : ν → List ε) (c : Cond ν ε) :
    Wanted (ns ++ [n]) lists c ↔ Wanted ns lists c ∨ c = .changeGuard n ∨ ∃ e ∈ lists n, c = .entity e := by
  cases c with
  | changeGuard m => simp [Wanted]
  | entity e =>
    simp only [Wanted, List.mem_append, List.mem_singleton, reduceCtorEq, false_or, Cond.entity.injEq,
      exists_eq_right']
    constructor
    · rintro ⟨m, hm | rfl, he⟩
      · exact Or.inl ⟨m, hm, he⟩
      · exact Or.inr he
    · rintro (⟨m, hm, he⟩ | he)
      · exact ⟨m, Or.inl hm, he⟩
      · exact ⟨n, Or.inr rfl, he⟩

omit [DecidableEq ν] [DecidableEq ε] in
theorem Fresh_congr {lists lists' : ν → List ε} {n : ν} (h : lists n = lists' n) (hf : s.Fresh lists n) :
    s.Fresh lists' n := by
  obtain ⟨k, hk, hle, heq⟩ := hf
  exact ⟨k, hk, hle, fun he => h ▸ heq he⟩

omit [DecidableEq ν] [DecidableEq ε] in
/-- A step that leaves the executor's own data alone keeps its view, as long as
it keeps every node seen or awake. -/
theorem View.mono (s s' : ExecState ν ε) (hn : s'.nodes = s.nodes) (ha : s'.attachments = s.attachments)
    (hpc : s'.pc = .waiting → s.pc = .waiting) (hf : ∀ lists n, s.Fresh lists n → s'.Fresh lists n)
    (hw : ∀ n, s.Awake n → s'.Awake n) (h : Holder ν ε)
    (hr : ∀ c n rest d, h = .reading c n rest d → (s'.node n).entities = (s.node n).entities)
    (hv : s.View h) : s'.View h := by
  have hcur : s.Current → s'.Current := by
    rintro ⟨lists, hc, hfresh⟩
    refine ⟨lists, ?_, ?_⟩
    · rw [ha, hn]
      exact hc
    · rw [hn]
      exact fun n hm => hf lists n (hfresh n hm)
  cases h with
  | free =>
    refine ⟨hcur hv.1, fun hp n hm => hw n (hv.2 (hpc hp) n (hn ▸ hm))⟩
  | checking rest =>
    obtain ⟨hc, done, hd, haw⟩ := hv
    exact ⟨hcur hc, done, hn.trans hd, fun n hm => hw n (haw n hm)⟩
  | absorbing rest => exact hcur hv
  | reconciling c rest d =>
    obtain ⟨hk, done, lists, hd, hhas, hdone⟩ := hv
    exact ⟨hk, done, lists, hn.trans hd, hhas,
      fun n hm => ⟨hf lists n (hdone n hm).1, hw n (hdone n hm).2⟩⟩
  | reading c n rest d =>
    obtain ⟨hk, done, lists, hd, hhas, hlist, hdone⟩ := hv
    exact ⟨hk, done, lists, hn.trans hd, hhas, hlist.trans (hr c n rest d rfl).symm,
      fun m hm => ⟨hf lists m (hdone m hm).1, hw m (hdone m hm).2⟩⟩

end ExecState

namespace ExecInv
variable {s : ExecState ν ε} (hI : ExecInv s)
include hI

omit [DecidableEq ν] [DecidableEq ε] in
/-- Guards, wake-ups and the moves of the spinning thread outside the lock. -/
theorem frame {s' : ExecState ν ε} (hn : s'.nodes = s.nodes) (ha : s'.attachments = s.attachments)
    (hh : s'.holder = s.holder) (hnode : s'.node = s.node) (hep : s'.nodeEpochs = s.nodeEpochs)
    (hun : s'.unfinished = s.unfinished) (hpc : s'.pc = .waiting → s.pc = .waiting) : ExecInv s' := by
  refine ⟨hn ▸ hI.nodup, ha ▸ hI.matched, hh ▸ ExecState.View.mono s s' hn ha hpc ?_ ?_ s.holder ?_ hI.view⟩
  · intro lists n hf
    rwa [ExecState.Fresh, hnode, hep]
  · intro n hw
    rwa [ExecState.Awake, hnode, hep, hun]
  · intro c n rest d _
    rw [hnode]

theorem update (n : ν) (es : List ε) (hread : ∀ c rest d, s.holder ≠ .reading c n rest d)
    (hwrap : (s.node n).entityEpoch.toNat + 1 < 2^64) : ExecInv (s.update n es) := by
  have hnext : ((s.node n).entityEpoch + 1).toNat = (s.node n).entityEpoch.toNat + 1 := by
    rw [BitVec.toNat_add]
    exact Nat.mod_eq_of_lt hwrap
  have hself : (s.update n es).node n =
      { s.node n with entities := es, entityEpoch := (s.node n).entityEpoch + 1 } := Function.update_self ..
  have hother : ∀ m, m ≠ n → (s.update n es).node m = s.node m := fun m h => Function.update_of_ne h ..
  refine ⟨hI.nodup, hI.matched, ExecState.View.mono s (s.update n es) rfl rfl id ?_ ?_ s.holder ?_ hI.view⟩
  · rintro lists m ⟨k, hk, hle, heq⟩
    refine ⟨k, hk, ?_⟩
    by_cases h : m = n
    · -- the recorded epoch is now behind, so nothing is claimed about the list
      subst h
      rw [hself]
      refine ⟨by simp only [hnext]; omega, fun he => ?_⟩
      rw [he] at hle
      simp only [hnext] at hle
      omega
    · rw [hother m h]
      exact ⟨hle, heq⟩
  · intro m hm
    by_cases h : m = n
    · right; right
      subst h
      change 0 < Function.update s.unfinished m _ m
      rw [Function.update_self]
      omega
    · have hum : (s.update n es).unfinished m = s.unfinished m := Function.update_of_ne h ..
      unfold ExecState.Awake
      rw [hother m h, hum]
      exact hm
  · rintro c m rest d hh
    rw [hother m]
    rintro rfl
    exact hread c rest d hh

omit [DecidableEq ε] in
theorem triggerChange (n : ν) : ExecInv (s.triggerChange n) := by
  refine ⟨hI.nodup, hI.matched, ExecState.View.mono s (s.triggerChange n) rfl rfl id ?_ ?_ s.holder ?_ hI.view⟩
  · exact fun lists m hf => ExecState.fresh_setGuard n true hf
  · intro m hm
    by_cases h : m = n
    · right; left
      subst h
      change (Function.update s.node m _ m).changeGuard = true
      rw [Function.update_self]
    · unfold ExecState.Awake
      change s.nodeEpochs m = some (Function.update s.node n _ m).entityEpoch ∨
        (Function.update s.node n _ m).changeGuard = true ∨ 0 < Function.update s.unfinished n _ m
      rw [Function.update_of_ne h, Function.update_of_ne h]
      exact hm
  · intro c m rest d _
    change (Function.update s.node n _ m).entities = _
    by_cases h : m = n
    · subst h
      rw [Function.update_self]
    · rw [Function.update_of_ne h]

omit hI in
omit [DecidableEq ν] [DecidableEq ε] in
/-- A reconcile that has read nothing yet promises nothing. -/
theorem begin_reconcile {s' : ExecState ν ε} (hnd : s'.nodes.Nodup) (hm : s'.attachments.Matched) (c : Caller)
    (hh : s'.holder = .reconciling c s'.nodes []) : ExecInv s' := by
  refine ⟨hnd, hm, ?_⟩
  rw [hh]
  refine ⟨nofun, [], fun _ => [], rfl, fun k => ?_, nofun⟩
  cases k <;> simp [Desired.has, Wanted]

omit [DecidableEq ε] in
theorem addNode (n : ν) : ExecInv (s.addNode n) := by
  unfold ExecState.addNode
  split_ifs with h
  · exact begin_reconcile hI.nodup hI.matched .addNode rfl
  · refine begin_reconcile ?_ hI.matched .addNode rfl
    exact List.nodup_append.mpr ⟨hI.nodup, List.nodup_singleton n,
      fun a ha b hb hab => h (List.mem_singleton.mp hb ▸ hab ▸ ha)⟩

omit [DecidableEq ε] in
theorem removeNode (n : ν) : ExecInv (s.removeNode n) :=
  begin_reconcile (hI.nodup.filter _) hI.matched .removeNode rfl

theorem readEntities {c : Caller} {n : ν} {rest : List ν} {d : Desired ν ε}
    (hl : s.holder = .reconciling c (n :: rest) d) :
    ExecInv { s with holder := .reading c n rest (d.addNode n (s.node n).entities) } := by
  have hv := hI.view
  rw [hl] at hv
  obtain ⟨hk, done, lists, hd, hhas, hdone⟩ := hv
  have hnd := hI.nodup
  rw [hd] at hnd
  have hne : ∀ m ∈ done, m ≠ n := fun m hm h =>
    (List.nodup_append.mp hnd).2.2 m hm n List.mem_cons_self h
  have hsame : ∀ m ∈ done, lists m = Function.update lists n (s.node n).entities m :=
    fun m hm => (Function.update_of_ne (hne m hm) _ _).symm
  refine ⟨hI.nodup, hI.matched, Desired.addNode_keyed hk n _, done,
    Function.update lists n (s.node n).entities, hd, ?_, Function.update_self .., ?_⟩
  · intro k
    rw [Desired.addNode_has, ExecState.Wanted_snoc, hhas, ExecState.Wanted_congr hsame, Function.update_self]
  · intro m hm
    obtain ⟨hf, hw⟩ := hdone m hm
    exact ⟨ExecState.Fresh_congr (hsame m hm) hf, hw⟩

omit [DecidableEq ε] in
theorem readEpoch {c : Caller} {n : ν} {rest : List ν} {d : Desired ν ε}
    (hl : s.holder = .reading c n rest d) :
    ExecInv { s with
      nodeEpochs := Function.update s.nodeEpochs n (some (s.node n).entityEpoch)
      holder := .reconciling c rest d } := by
  have hv := hI.view
  rw [hl] at hv
  obtain ⟨hk, done, lists, hd, hhas, hlist, hdone⟩ := hv
  have hnd := hI.nodup
  rw [hd] at hnd
  refine ⟨hI.nodup, hI.matched, hk, done ++ [n], lists, by simpa using hd, hhas, ?_⟩
  intro m hm
  unfold ExecState.Fresh ExecState.Awake
  dsimp only
  rcases List.mem_append.mp hm with hm | hm
  · have hne : m ≠ n := fun h => (List.nodup_append.mp hnd).2.2 m hm n List.mem_cons_self h
    rw [Function.update_of_ne hne]
    exact hdone m hm
  · obtain rfl := List.mem_singleton.mp hm
    rw [Function.update_self]
    exact ⟨⟨_, rfl, Nat.le_refl _, fun _ => hlist⟩, Or.inl rfl⟩

/-- When the reconcile is through, everything it read is attached. -/
theorem finish {c : Caller} {d : Desired ν ε} (hl : s.holder = .reconciling c [] d) :
    ExecInv (s.finish d c) := by
  have hv := hI.view
  rw [hl] at hv
  obtain ⟨hk, done, lists, hd, hhas, hdone⟩ := hv
  obtain ⟨hconds, hmatched⟩ := Attachments.apply_conds hI.matched hk
  rw [List.append_nil] at hd
  have hattached : ∀ k, k ∈ (s.attachments.apply d).conds ↔ Wanted s.nodes lists k := by
    intro k
    rw [hconds, hhas, hd]
  have hfresh : ∀ n ∈ s.nodes, s.Fresh lists n := fun n hn => (hdone n (hd ▸ hn)).1
  have hawake : ∀ n ∈ s.nodes, s.Awake n := fun n hn => (hdone n (hd ▸ hn)).2
  cases c with
  | executor => exact ⟨hI.nodup, hmatched, ⟨lists, hattached, hfresh⟩, fun _ => hawake⟩
  | addNode => exact ⟨hI.nodup, hmatched, ⟨lists, hattached, hfresh⟩, fun _ => hawake⟩
  | removeNode => exact ⟨hI.nodup, hmatched, ⟨lists, hattached, hfresh⟩, fun _ => hawake⟩

omit [DecidableEq ν] [DecidableEq ε] in
theorem enter (hl : s.holder = .free) : ExecInv s.enter := by
  have hv := hI.view
  rw [hl] at hv
  unfold ExecState.enter
  split_ifs
  · exact begin_reconcile hI.nodup hI.matched .executor rfl
  · exact ⟨hI.nodup, hI.matched, hv.1, [], rfl, nofun⟩

omit [DecidableEq ν] [DecidableEq ε] in
theorem check {n : ν} {rest : List ν} (hl : s.holder = .checking (n :: rest)) : ExecInv (s.check n rest) := by
  have hv := hI.view
  rw [hl] at hv
  obtain ⟨hcur, done, hd, hdone⟩ := hv
  unfold ExecState.check
  split_ifs with h
  · refine ⟨hI.nodup, hI.matched, hcur, done ++ [n], by simpa using hd, ?_⟩
    intro m hm
    rcases List.mem_append.mp hm with hm | hm
    · exact hdone m hm
    · obtain rfl := List.mem_singleton.mp hm
      exact Or.inl h
  · exact begin_reconcile hI.nodup hI.matched .executor rfl

omit [DecidableEq ν] [DecidableEq ε] in
theorem wait (hl : s.holder = .checking []) : ExecInv { s with holder := .free, pc := .waiting } := by
  have hv := hI.view
  rw [hl] at hv
  obtain ⟨hcur, done, hd, hdone⟩ := hv
  rw [List.append_nil] at hd
  exact ⟨hI.nodup, hI.matched, hcur, fun _ n hn => hdone n (hd ▸ hn)⟩

omit [DecidableEq ε] in
theorem absorb {n : ν} {rest : List ν} (hl : s.holder = .absorbing (n :: rest)) :
    ExecInv { s.setGuard n false with holder := .absorbing rest } := by
  have hv := hI.view
  rw [hl] at hv
  obtain ⟨lists, hconds, hfresh⟩ := hv
  exact ⟨hI.nodup, hI.matched, lists, hconds, fun m hm => ExecState.fresh_setGuard n false (hfresh m hm)⟩

end ExecInv

theorem ExecStep.preserves {s s' : ExecState ν ε} {a : ExecAction ν ε} (hI : ExecInv s) (hu : Untorn s a)
    (h : ExecStep s a s') : ExecInv s' := by
  cases h with
  | addEntity n e =>
    obtain ⟨hread, hwrap⟩ := hu n ⟨e, Or.inl rfl⟩
    exact hI.update n _ hread hwrap
  | removeEntity n e =>
    obtain ⟨hread, hwrap⟩ := hu n ⟨e, Or.inr rfl⟩
    exact hI.update n _ hread hwrap
  | triggerChange n h => exact hI.triggerChange n
  | addNode n hl => exact hI.addNode n
  | removeNode n hl => exact hI.removeNode n
  | triggerWake h => exact hI.frame rfl rfl rfl rfl rfl rfl id
  | cancel => exact hI.frame rfl rfl rfl rfl rfl rfl id
  | readEntities c n rest d hl => exact hI.readEntities hl
  | readEpoch c n rest d hl => exact hI.readEpoch hl
  | apply c d hl => exact hI.finish hl
  | enter hp hl => exact hI.enter hl
  | check n rest hl => exact hI.check hl
  | wait hl => exact hI.wait hl
  | timeout hp => exact hI.frame rfl rfl rfl rfl rfl rfl nofun
  | wake ids hp => exact hI.frame rfl rfl rfl rfl rfl rfl nofun
  | dispatch id rest hp hl =>
    unfold ExecState.dispatch
    split_ifs <;> exact hI.frame rfl rfl rfl rfl rfl rfl nofun
  | beginAbsorb hp hl =>
    have hv := hI.view
    rw [hl] at hv
    exact ⟨hI.nodup, hI.matched, hv.1⟩
  | absorb n rest hl => exact hI.absorb hl
  | leave hl =>
    have hv := hI.view
    rw [hl] at hv
    exact ⟨hI.nodup, hI.matched, hv, nofun⟩

omit [DecidableEq ν] [DecidableEq ε] in
theorem execInv_initial {s : ExecState ν ε} (h : s.Initial) : ExecInv s := by
  obtain ⟨hn, -, ha, hh, hp⟩ := h
  refine ⟨hn ▸ List.nodup_nil, ?_, ?_⟩
  · rw [ha]
    intro c
    simp [Attachments.conds, Attachments.new]
  · rw [hh]
    refine ⟨⟨fun _ => [], fun c => ?_, ?_⟩, fun _ => ?_⟩
    · rw [ha, hn]
      cases c <;> simp [Attachments.conds, Attachments.new, Wanted]
    · rw [hn]
      exact nofun
    · rw [hn]
      exact nofun

theorem execInv_reachable {s : ExecState ν ε} (h : (executorSystem.restrict Untorn).Reachable s) :
    ExecInv s := by
  apply h.invariant ExecInv
  · intro s hi
    exact execInv_initial hi
  · intro s a s' _ hI hs
    exact ExecStep.preserves hI hs.1 hs.2

/-- In a run in which no node changes between the two reads a reconcile makes
of it, an executor that is blocked with nothing left to wake it is attached to
exactly the entities of its nodes. -/
theorem no_entity_change_lost (s : ExecState ν ε) (h : (executorSystem.restrict Untorn).Reachable s)
    (hw : s.pc = .waiting) (hfree : s.holder = .free) (hun : ∀ n, s.unfinished n = 0)
    (hguard : ∀ n, .changeGuard n ∈ s.attachments.conds → (s.node n).changeGuard = false) (e : ε) :
    .entity e ∈ s.attachments.conds ↔ ∃ n ∈ s.nodes, e ∈ (s.node n).entities := by
  have hv := (execInv_reachable h).view
  rw [hfree] at hv
  obtain ⟨⟨lists, hconds, hfresh⟩, hawake⟩ := hv
  have hlists : ∀ n ∈ s.nodes, lists n = (s.node n).entities := by
    intro n hn
    obtain ⟨k, hk, -, heq⟩ := hfresh n hn
    apply heq
    -- neither the guard nor an unfinished change can account for a stale epoch
    rcases hawake hw n hn with hcur | hset | hpend
    · exact Option.some_inj.mp (hk.symm.trans hcur)
    · rw [hguard n ((hconds _).mpr hn)] at hset
      cases hset
    · rw [hun n] at hpend
      omega
  rw [hconds, ExecState.Wanted_congr hlists]
  exact Iff.rfl

/-- An executor over one node that has no entity yet. -/
def idleExecutor : ExecState Unit Unit where
  node _ := ⟨[], 0, false⟩
  unfinished _ := 0
  nodes := []
  nodeEpochs _ := none
  attachments := .new
  cancelGuard := false
  wakeGuard := false
  unfinishedWakes := 0
  holder := .free
  pc := .start

theorem idleExecutor_initial : idleExecutor.Initial := ⟨rfl, rfl, rfl, rfl, rfl⟩

theorem no_entity_change_lost_one_node :
    ∃ s : ExecState Unit Unit, (executorSystem.restrict Untorn).Reachable s ∧
      (Cond.entity () ∈ s.attachments.conds ↔ ∃ n ∈ s.nodes, () ∈ (s.node n).entities) ∧
      Cond.entity () ∈ s.attachments.conds := by
  have quiet : ∀ {a : ExecAction Unit Unit} (s : ExecState Unit Unit), (∀ n, ¬ a.Changes n) → Untorn s a :=
    fun s h n hn => absurd hn (h n)
  have h0 : (executorSystem.restrict Untorn).Reachable idleExecutor := .init idleExecutor_initial
  have h1 := h0.step_restrict (.addNode () rfl) (quiet _ nofun)
  have h2 := h1.step_restrict (.readEntities _ _ _ _ rfl) (quiet _ nofun)
  have h3 := h2.step_restrict (.readEpoch _ _ _ _ rfl) (quiet _ nofun)
  have h4 := h3.step_restrict (.addEntity () ()) (fun n _ => ⟨nofun, (by decide : 0 + 1 < 2^64)⟩)
  have h5 := h4.step_restrict (.apply _ _ rfl) (quiet _ nofun)
  have h6 := h5.step_restrict (.triggerChange () (by decide)) (quiet _ nofun)
  have h7 := h6.step_restrict (.enter rfl rfl) (quiet _ nofun)
  have h8 := h7.step_restrict (.check () [] rfl) (quiet _ nofun)
  have h9 := h8.step_restrict (.readEntities _ _ _ _ rfl) (quiet _ nofun)
  have h10 := h9.step_restrict (.readEpoch _ _ _ _ rfl) (quiet _ nofun)
  have h11 := h10.step_restrict (.apply _ _ rfl) (quiet _ nofun)
  -- the guard is still up: one more round absorbs it
  have h12 := h11.step_restrict (.wake [3] rfl) (quiet _ nofun)
  have h13 := h12.step_restrict (.dispatch 3 [] rfl rfl) (quiet _ nofun)
  have h14 := h13.step_restrict (.beginAbsorb rfl rfl) (quiet _ nofun)
  have h15 := h14.step_restrict (.absorb () [] rfl) (quiet _ nofun)
  have h16 := h15.step_restrict (.leave rfl) (quiet _ nofun)
  have h17 := h16.step_restrict (.enter rfl rfl) (quiet _ nofun)
  have h18 := h17.step_restrict (.check () [] rfl) (quiet _ nofun)
  have h19 := h18.step_restrict (.wait rfl) (quiet _ nofun)
  exact ⟨_, h19, no_entity_change_lost _ h19 rfl rfl (fun _ => rfl) (fun _ _ => rfl) (), by decide⟩

/-- An entity is added after `entities()` was read and before `entity_epoch()`:
the change guard wakes the executor, is absorbed, and the epochs agree. -/
theorem entity_change_lost :
    ∃ s : ExecState Unit Unit, executorSystem.Reachable s ∧ s.pc = .waiting ∧ s.holder = .free ∧
      (∀ n, s.unfinished n = 0) ∧ s.unfinishedWakes = 0 ∧ s.cancelGuard = false ∧ s.wakeGuard = false ∧
      (∀ n, (s.node n).changeGuard = false) ∧
      ¬ (Cond.entity () ∈ s.attachments.conds ↔ ∃ n ∈ s.nodes, () ∈ (s.node n).entities) := by
  have h0 : executorSystem.Reachable idleExecutor := .init idleExecutor_initial
  have h1 := h0.step (.addNode () rfl)
  have h2 := h1.step (.readEntities _ _ _ _ rfl)
  have h3 := h2.step (.addEntity () ())
  have h4 := h3.step (.readEpoch _ _ _ _ rfl)
  have h5 := h4.step (.apply _ _ rfl)
  have h6 := h5.step (.triggerChange () (by decide))
  have h7 := h6.step (.triggerWake (by decide))
  have h8 := h7.step (.enter rfl rfl)
  have h9 := h8.step (.check () [] rfl)
  have h10 := h9.step (.wait rfl)
  have h11 := h10.step (.wake [2, 3] rfl)
  have h12 := h11.step (.dispatch 2 [3] rfl rfl)
  have h13 := h12.step (.dispatch 3 [] rfl rfl)
  have h14 := h13.step (.beginAbsorb rfl rfl)
  have h15 := h14.step (.absorb () [] rfl)
  have h16 := h15.step (.leave rfl)
  have h17 := h16.step (.enter rfl rfl)
  have h18 := h17.step (.check () [] rfl)
  have h19 := h18.step (.wait rfl)
  refine ⟨_, h19, rfl, rfl, fun _ => rfl, rfl, rfl, rfl, fun _ => rfl, ?_⟩
  decide

end Rcllite
