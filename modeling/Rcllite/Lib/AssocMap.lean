import Mathlib.Data.List.Nodup
import Mathlib.Tactic.Common

/-! Finite maps as lists of entries with distinct keys, in an order nothing
depends on. -/

structure AssocMap (κ α : Type) where
  entries : List (κ × α)
  nodup : (entries.map Prod.fst).Nodup

namespace AssocMap
variable {κ α : Type} [DecidableEq κ]

def empty : AssocMap κ α := ⟨[], List.nodup_nil⟩

def find? (m : AssocMap κ α) (k : κ) : Option α := (m.entries.find? (fun e => e.1 = k)).map Prod.snd

omit [DecidableEq κ] in
theorem nodup_filter (m : AssocMap κ α) (p : κ × α → Bool) : ((m.entries.filter p).map Prod.fst).Nodup :=
  m.nodup.sublist (List.filter_sublist.map _)

/-- Remove the entries that satisfy `p`. -/
def eraseIf (m : AssocMap κ α) (p : κ × α → Bool) : AssocMap κ α :=
  ⟨m.entries.filter (fun e => !p e), m.nodup_filter _⟩

def erase (m : AssocMap κ α) (k : κ) : AssocMap κ α := m.eraseIf (fun e => e.1 = k)

def insert (m : AssocMap κ α) (k : κ) (v : α) : AssocMap κ α where
  entries := (k, v) :: (m.erase k).entries
  nodup := by
    refine List.nodup_cons.mpr ⟨?_, (m.erase k).nodup⟩
    intro h
    obtain ⟨e, he, hk⟩ := List.mem_map.mp h
    have hne := (List.mem_filter.mp he).2
    simp [hk] at hne

/-- Lookup is membership, because keys are distinct. -/
theorem find?_eq_some_iff (m : AssocMap κ α) (k : κ) (v : α) : m.find? k = some v ↔ (k, v) ∈ m.entries := by
  obtain ⟨l, hl⟩ := m
  unfold find?
  dsimp only
  induction l with
  | nil => simp
  | cons e l ih =>
    obtain ⟨k', v'⟩ := e
    obtain ⟨hk, hl⟩ := List.nodup_cons.mp hl
    rw [List.find?_cons, List.mem_cons]
    by_cases h : k' = k
    · subst h
      have hno : (k', v) ∉ l := fun hmem => hk (List.mem_map.mpr ⟨(k', v), hmem, rfl⟩)
      simp [hno, eq_comm]
    · rw [decide_eq_false h]
      simp only [ih hl, Prod.mk.injEq, Ne.symm h, false_and, false_or]

theorem find?_eraseIf (m : AssocMap κ α) (p : κ × α → Bool) (k : κ) (v : α) :
    (m.eraseIf p).find? k = some v ↔ m.find? k = some v ∧ p (k, v) = false := by
  rw [find?_eq_some_iff, find?_eq_some_iff, eraseIf, List.mem_filter, Bool.not_eq_true']

@[simp] theorem find?_erase_self (m : AssocMap κ α) (k : κ) : (m.erase k).find? k = none := by
  apply Option.eq_none_iff_forall_ne_some.mpr
  intro v hv
  have := ((find?_eraseIf m _ k v).mp hv).2
  simp at this

theorem find?_erase_ne (m : AssocMap κ α) {k k' : κ} (h : k' ≠ k) : (m.erase k).find? k' = m.find? k' := by
  apply Option.ext
  intro v
  rw [erase, find?_eraseIf]
  simp [h]

@[simp] theorem find?_insert_self (m : AssocMap κ α) (k : κ) (v : α) : (m.insert k v).find? k = some v :=
  (find?_eq_some_iff _ k v).mpr List.mem_cons_self

theorem find?_insert_ne (m : AssocMap κ α) {k k' : κ} (v : α) (h : k' ≠ k) :
    (m.insert k v).find? k' = m.find? k' := by
  rw [← find?_erase_ne m h]
  unfold find? insert
  rw [List.find?_cons, decide_eq_false (Ne.symm h)]

/-- What holds of the new entry and of the old ones holds of all. -/
theorem find?_insert_forall {m : AssocMap κ α} {P : κ → α → Prop} {k : κ} {v : α} (hnew : P k v)
    (hold : ∀ g a, m.find? g = some a → P g a) {g : κ} {a : α} (h : (m.insert k v).find? g = some a) : P g a := by
  by_cases hg : g = k
  · subst hg
    rw [find?_insert_self, Option.some_inj] at h
    exact h ▸ hnew
  · rw [find?_insert_ne _ _ hg] at h
    exact hold g a h

theorem insert_entries (m : AssocMap κ α) {k : κ} (v : α) (hk : k ∉ m.entries.map Prod.fst) :
    (m.insert k v).entries = (k, v) :: m.entries := by
  have hsame : (m.erase k).entries = m.entries := by
    apply List.filter_eq_self.mpr
    intro e he
    have hne : e.1 ≠ k := fun h => hk (h ▸ List.mem_map_of_mem he)
    simp [hne]
  exact congrArg (List.cons (k, v)) hsame

section Search
variable {β : Type}

/-- The first entry whose value `f` accepts, in the order of the entries. -/
def findFirst? (m : AssocMap κ α) (f : α → Option β) : Option (κ × β) :=
  m.entries.findSome? fun e => (f e.2).map fun b => (e.1, b)

/-- The value of the first entry that `f` accepts is replaced. -/
def updateEntries (f : α → Option α) : List (κ × α) → List (κ × α)
  | [] => []
  | e :: l =>
    match f e.2 with
    | some v => (e.1, v) :: l
    | none => e :: updateEntries f l

omit [DecidableEq κ] in
theorem updateEntries_keys (f : α → Option α) (l : List (κ × α)) :
    (updateEntries f l).map Prod.fst = l.map Prod.fst := by
  induction l with
  | nil => rfl
  | cons e l ih =>
    rw [updateEntries]
    cases f e.2 with
    | some v => rfl
    | none => exact congrArg (List.cons e.1) ih

def updateFirst (m : AssocMap κ α) (f : α → Option α) : AssocMap κ α where
  entries := updateEntries f m.entries
  nodup := by
    rw [updateEntries_keys]
    exact m.nodup

/-- When one entry at most is accepted, the order of the entries does not matter. -/
theorem findFirst?_eq_some_iff {m : AssocMap κ α} {f : α → Option β}
    (hone : ∀ k v k' v', m.find? k = some v → m.find? k' = some v' → (f v).isSome → (f v').isSome → k = k')
    {k : κ} {b : β} : m.findFirst? f = some (k, b) ↔ ∃ v, m.find? k = some v ∧ f v = some b := by
  unfold findFirst?
  constructor
  · intro h
    obtain ⟨e, he, hf⟩ := List.exists_of_findSome?_eq_some h
    obtain ⟨b', hb', heq⟩ := Option.map_eq_some_iff.mp hf
    cases heq
    exact ⟨e.2, (find?_eq_some_iff m _ _).mpr he, hb'⟩
  · rintro ⟨v, hv, hb⟩
    have hmem := (find?_eq_some_iff m k v).mp hv
    cases h : m.entries.findSome? (fun e => (f e.2).map fun b => (e.1, b)) with
    | none =>
      have hnone := List.findSome?_eq_none_iff.mp h (k, v) hmem
      rw [hb] at hnone
      cases hnone
    | some kb =>
      obtain ⟨e, he, hf⟩ := List.exists_of_findSome?_eq_some h
      obtain ⟨b', hb', rfl⟩ := Option.map_eq_some_iff.mp hf
      have hsome : m.find? e.1 = some e.2 := (find?_eq_some_iff m _ _).mpr he
      obtain rfl : e.1 = k := hone _ _ _ _ hsome hv (by rw [hb']; rfl) (by rw [hb]; rfl)
      obtain rfl : e.2 = v := Option.some.inj (hsome.symm.trans hv)
      rw [hb'] at hb
      rw [Option.some.inj hb]

/-- When one entry at most is accepted, replacing the first is replacing all. -/
theorem find?_updateFirst {m : AssocMap κ α} {f : α → Option α}
    (hone : ∀ k v k' v', m.find? k = some v → m.find? k' = some v' → (f v).isSome → (f v').isSome → k = k')
    (k : κ) : (m.updateFirst f).find? k = (m.find? k).map fun v => (f v).getD v := by
  obtain ⟨l, hl⟩ := m
  simp only [find?_eq_some_iff] at hone
  unfold find? updateFirst
  dsimp only at hone ⊢
  induction l with
  | nil => rfl
  | cons e l ih =>
    obtain ⟨hk, hl'⟩ := List.nodup_cons.mp hl
    have hrest := ih hl' (fun k v k' v' h h' => hone k v k' v' (List.mem_cons_of_mem _ h) (List.mem_cons_of_mem _ h'))
    rw [updateEntries]
    cases hf : f e.2 with
    | none =>
      dsimp only
      rw [List.find?_cons, List.find?_cons]
      by_cases he : e.1 = k
      · rw [decide_eq_true he]
        dsimp only [Option.map]
        rw [hf]
        rfl
      · rw [decide_eq_false he]
        exact hrest
    | some v =>
      dsimp only
      rw [List.find?_cons, List.find?_cons]
      by_cases he : e.1 = k
      · rw [decide_eq_true he]
        dsimp only [Option.map]
        rw [hf]
        rfl
      · rw [decide_eq_false he]
        dsimp only
        -- nothing behind the accepted entry is accepted
        cases hfind : l.find? (fun e => decide (e.1 = k)) with
        | none => rfl
        | some e' =>
          have hmem := List.mem_of_find?_eq_some hfind
          have hkey : e'.1 = k := by simpa using List.find?_some hfind
          have hnone : f e'.2 = none := by
            by_contra hsome
            have hsame := hone e.1 e.2 e'.1 e'.2 List.mem_cons_self (List.mem_cons_of_mem _ hmem)
              (by rw [hf]; rfl) (Option.isSome_iff_ne_none.mpr hsome)
            exact he (hsame.trans hkey)
          dsimp only [Option.map]
          rw [hnone]
          rfl

end Search

section Keys

def keys (m : AssocMap κ α) : List κ := m.entries.map Prod.fst

theorem mem_keys_iff {m : AssocMap κ α} {k : κ} : k ∈ m.keys ↔ ∃ v, m.find? k = some v := by
  constructor
  · intro h
    obtain ⟨e, he, rfl⟩ := List.mem_map.mp h
    exact ⟨e.2, (find?_eq_some_iff m _ _).mpr he⟩
  · rintro ⟨v, hv⟩
    exact List.mem_map_of_mem ((find?_eq_some_iff m k v).mp hv)

theorem keys_insert_new {m : AssocMap κ α} {k : κ} {v : α} (hk : k ∉ m.keys) : (m.insert k v).keys = k :: m.keys :=
  congrArg (List.map Prod.fst) (m.insert_entries v hk)

theorem keys_erase_perm {m : AssocMap κ α} {k : κ} (hk : k ∈ m.keys) : m.keys.Perm (k :: (m.erase k).keys) := by
  have hnot : k ∉ (m.erase k).keys := by
    intro h
    obtain ⟨v, hv⟩ := mem_keys_iff.mp h
    rw [find?_erase_self] at hv
    cases hv
  refine (List.perm_ext_iff_of_nodup m.nodup (List.nodup_cons.mpr ⟨hnot, (m.erase k).nodup⟩)).mpr (fun k' => ?_)
  change k' ∈ m.keys ↔ k' ∈ k :: (m.erase k).keys
  rw [List.mem_cons]
  by_cases h : k' = k
  · subst h
    exact ⟨fun _ => Or.inl rfl, fun _ => hk⟩
  · rw [mem_keys_iff, mem_keys_iff, find?_erase_ne m h]
    exact ⟨Or.inr, fun h' => h'.resolve_left h⟩

theorem keys_insert_perm {m : AssocMap κ α} {k : κ} (v : α) (hk : k ∈ m.keys) : (m.insert k v).keys.Perm m.keys :=
  (keys_erase_perm hk).symm

omit [DecidableEq κ] in
theorem keys_updateFirst (m : AssocMap κ α) (f : α → Option α) : (m.updateFirst f).keys = m.keys :=
  updateEntries_keys f m.entries

end Keys

section Order

/-- The entry of `k`, if there is one, comes to the front. -/
def toFront (k : κ) (m : AssocMap κ α) : AssocMap κ α :=
  match m.find? k with
  | some v => m.insert k v
  | none => m

/-- The entries of the keys in `order` come to the front, in that order. -/
def arrange (m : AssocMap κ α) (order : List κ) : AssocMap κ α := order.foldr toFront m

theorem find?_toFront (m : AssocMap κ α) (k k' : κ) : (m.toFront k).find? k' = m.find? k' := by
  unfold toFront
  cases h : m.find? k with
  | none => rfl
  | some v =>
    by_cases hk : k' = k
    · subst hk
      rw [find?_insert_self, h]
    · exact find?_insert_ne m v hk

theorem keys_toFront_perm (m : AssocMap κ α) (k : κ) : (m.toFront k).keys.Perm m.keys := by
  unfold toFront
  cases h : m.find? k with
  | none => exact List.Perm.refl _
  | some v => exact keys_insert_perm v (mem_keys_iff.mpr ⟨v, h⟩)

/-- An arrangement is the same map. -/
theorem find?_arrange (m : AssocMap κ α) (order : List κ) (k : κ) : (m.arrange order).find? k = m.find? k := by
  induction order with
  | nil => rfl
  | cons k' order ih =>
    calc
      ((m.arrange order).toFront k').find? k = (m.arrange order).find? k := find?_toFront _ k' k
      _ = m.find? k := ih

theorem keys_arrange_perm (m : AssocMap κ α) (order : List κ) : (m.arrange order).keys.Perm m.keys := by
  induction order with
  | nil => exact List.Perm.refl _
  | cons k order ih =>
    calc
      ((m.arrange order).toFront k).keys.Perm (m.arrange order).keys := keys_toFront_perm _ k
      List.Perm _ m.keys := ih

theorem arrange_entries (m : AssocMap κ α) {l : List (κ × α)} (hmem : ∀ e ∈ l, e ∈ m.entries)
    (hnodup : (l.map Prod.fst).Nodup) :
    (m.arrange (l.map Prod.fst)).entries = l ++ m.entries.filter (fun e => e.1 ∉ l.map Prod.fst) := by
  induction l with
  | nil => simp [arrange]
  | cons e l ih =>
    obtain ⟨he, hl⟩ := List.nodup_cons.mp hnodup
    have hrest := ih (fun e' he' => hmem e' (List.mem_cons_of_mem _ he')) hl
    have hfind : (m.arrange (l.map Prod.fst)).find? e.1 = some e.2 := by
      rw [find?_arrange, find?_eq_some_iff]
      exact hmem e List.mem_cons_self
    have hfront : m.arrange ((e :: l).map Prod.fst) = (m.arrange (l.map Prod.fst)).insert e.1 e.2 := by
      change (m.arrange (l.map Prod.fst)).toFront e.1 = _
      rw [toFront, hfind]
    -- the keys of `l` are others, so only the rest loses the entry
    have hkeep : l.filter (fun e' => !decide (e'.1 = e.1)) = l := by
      apply List.filter_eq_self.mpr
      intro e' he'
      have hne : e'.1 ≠ e.1 := fun h => he (h ▸ List.mem_map_of_mem he')
      simp [hne]
    rw [hfront]
    change (e.1, e.2) :: (m.arrange (l.map Prod.fst)).entries.filter _ = _
    rw [hrest, List.filter_append, hkeep, List.filter_filter, List.cons_append]
    congr 2
    apply List.filter_congr
    intro e' _
    simp only [List.map_cons, List.mem_cons, not_or, Bool.decide_and, decide_not]

/-- Every order of the entries is an arrangement. -/
theorem exists_arrange (m : AssocMap κ α) {l : List (κ × α)} (h : l.Perm m.entries) :
    ∃ order, (m.arrange order).entries = l := by
  have hkeys : (l.map Prod.fst).Nodup := (h.map Prod.fst).nodup_iff.mpr m.nodup
  refine ⟨l.map Prod.fst, ?_⟩
  rw [arrange_entries m (fun e he => h.mem_iff.mp he) hkeys]
  have hnone : m.entries.filter (fun e => decide (e.1 ∉ l.map Prod.fst)) = [] := by
    apply List.filter_eq_nil_iff.mpr
    intro e he
    simpa using ⟨e.2, h.mem_iff.mpr he⟩
  rw [hnone, List.append_nil]

end Order

end AssocMap
