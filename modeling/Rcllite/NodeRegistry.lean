import Rcllite.Lib.AssocMap
import Rcllite.Names
import Rcllite.TopicDelivery

/-! The registry of nodes behind the FFI, with the publishers and subscriptions of each node. Every call has
one critical section, so the calls of all threads form one sequence. What the calls return is what a flat
directory of the handles would return. -/
namespace Rcllite
open Transition
open Utf8 (literal)

/-- A `PubEntry` or a `SubEntry` without the DDS entity it owns. -/
structure Endpoint where
  topic : String
  type : List UInt8
deriving DecidableEq

inductive EndpointKind where
  | pub
  | sub
deriving DecidableEq

structure NodeEntry where
  pubs : AssocMap ℤ Endpoint
  subs : AssocMap ℤ Endpoint

namespace NodeEntry

def new : NodeEntry := ⟨.empty, .empty⟩

def endpoints (e : NodeEntry) : EndpointKind → AssocMap ℤ Endpoint
  | .pub => e.pubs
  | .sub => e.subs

def setEndpoints (e : NodeEntry) (m : AssocMap ℤ Endpoint) : EndpointKind → NodeEntry
  | .pub => { e with pubs := m }
  | .sub => { e with subs := m }

@[simp] theorem endpoints_setEndpoints_self (e : NodeEntry) (m : AssocMap ℤ Endpoint) (kind : EndpointKind) :
    (e.setEndpoints m kind).endpoints kind = m := by
  cases kind <;> rfl

theorem endpoints_setEndpoints_ne (e : NodeEntry) (m : AssocMap ℤ Endpoint) {kind kind' : EndpointKind}
    (h : kind' ≠ kind) : (e.setEndpoints m kind).endpoints kind' = e.endpoints kind' := by
  cases kind <;> cases kind' <;> first | rfl | exact absurd rfl h

/-- `entry->pubs.erase(handle) > 0`. -/
def eraseEndpoint (kind : EndpointKind) (handle : ℤ) (e : NodeEntry) : Option NodeEntry :=
  if ((e.endpoints kind).find? handle).isSome then some (e.setEndpoints ((e.endpoints kind).erase handle) kind)
  else none

theorem eraseEndpoint_isSome {kind : EndpointKind} {handle : ℤ} {e : NodeEntry} :
    (eraseEndpoint kind handle e).isSome ↔ ((e.endpoints kind).find? handle).isSome := by
  unfold eraseEndpoint
  split_ifs with h <;> simp [h]

theorem find?_eraseEndpoint (e : NodeEntry) (kind kind' : EndpointKind) (handle h : ℤ) :
    (((eraseEndpoint kind handle e).getD e).endpoints kind').find? h =
      if kind' = kind ∧ h = handle then none else (e.endpoints kind').find? h := by
  unfold eraseEndpoint
  by_cases hmem : ((e.endpoints kind).find? handle).isSome = true
  · rw [if_pos hmem, Option.getD_some]
    by_cases hk : kind' = kind
    · subst hk
      rw [endpoints_setEndpoints_self]
      by_cases hh : h = handle
      · subst hh
        rw [AssocMap.find?_erase_self, if_pos ⟨rfl, rfl⟩]
      · rw [AssocMap.find?_erase_ne _ hh, if_neg (fun h => hh h.2)]
    · rw [endpoints_setEndpoints_ne _ _ hk, if_neg (fun h => hk h.1)]
  · rw [if_neg hmem, Option.getD_none]
    split_ifs with hboth
    · obtain ⟨rfl, rfl⟩ := hboth
      exact Option.not_isSome_iff_eq_none.mp hmem
    · rfl

end NodeEntry

/-- What a call raises: an exception of the library, or a `ValueError` of the binding. -/
inductive FfiError where
  | rcl (message : List UInt8)
  | valueError (message : String)

/-- Handles are signed; the counter starts at 1 and has room for `2^63 - 1` of them. -/
structure NodeRegistry where
  registry : AssocMap ℤ NodeEntry   -- `g_registry`
  next : ℤ                          -- `g_next_handle`

namespace NodeRegistry

def new : NodeRegistry := ⟨.empty, 1⟩

/-- `NodeCreate_` behind the construction of the node and of its executor. -/
def nodeCreate (s : NodeRegistry) : ℤ × NodeRegistry := (s.next, ⟨s.registry.insert s.next .new, s.next + 1⟩)

/-- The critical section of `NodeDestroy_`; an unknown handle is ignored. -/
def nodeDestroy (handle : ℤ) (s : NodeRegistry) : NodeRegistry := { s with registry := s.registry.erase handle }

def lookup (handle : ℤ) (s : NodeRegistry) : Except FfiError NodeEntry :=
  match s.registry.find? handle with
  | some entry => .ok entry
  | none => .error (.valueError ("unknown node handle: " ++ toString handle))

/-- What `PubCreate_` and `SubCreate_` share. The writer or the reader comes into being, or its constructor
raises. -/
def endpointCreate (kind : EndpointKind) (node : ℤ) (topic typeName : String) (made : Except (List UInt8) Unit)
    (s : NodeRegistry) : Except FfiError (ℤ × NodeRegistry) :=
  match ddsTypeName (literal typeName) with
  | .error e => .error (.rcl e)
  | .ok type =>
    match s.lookup node with
    | .error e => .error e
    | .ok entry =>
      match rosToDdsTopicName (literal topic) with
      | .error e => .error (.rcl e)
      | .ok _ =>
        match made with
        | .error e => .error (.rcl e)
        | .ok () => .ok (s.next, ⟨s.registry.insert node
            (entry.setEndpoints ((entry.endpoints kind).insert s.next ⟨topic, type⟩) kind), s.next + 1⟩)

/-- The hash table may put its entries in any order. -/
def rehash (order : List ℤ) (s : NodeRegistry) : NodeRegistry := { s with registry := s.registry.arrange order }

/-- The search through the nodes for an endpoint. -/
def find (kind : EndpointKind) (handle : ℤ) (s : NodeRegistry) : Option (ℤ × Endpoint) :=
  s.registry.findFirst? fun entry => (entry.endpoints kind).find? handle

/-- What `PubDestroy_` and `SubDestroy_` share: the first node that has the endpoint gives it up. -/
def endpointDestroy (kind : EndpointKind) (handle : ℤ) (s : NodeRegistry) : NodeRegistry :=
  { s with registry := s.registry.updateFirst (NodeEntry.eraseEndpoint kind handle) }

def pubCreate := endpointCreate .pub
def subCreate := endpointCreate .sub
def pubDestroy := endpointDestroy .pub

/-- The critical section of `SubDestroy_`: also the node and the subscription that are closed behind it. -/
def subDestroy (handle : ℤ) (s : NodeRegistry) : Option (ℤ × Endpoint) × NodeRegistry :=
  (s.find .sub handle, endpointDestroy .sub handle s)

end NodeRegistry

/-- `PubPublish_` once the publisher is looked up: what reaches `dds_writecdr` through which endpoint, and what
the caller sees. -/
def publishThrough (iovLenBits : ℕ) (allocated accepted : Bool) (handle : ℤ) (payload : List UInt8) :
    Option Endpoint → Except MemoryFault (Option (Endpoint × List UInt8) × Except FfiError Unit)
  | none => .ok (none, .error (.valueError ("unknown publisher handle: " ++ toString handle)))
  | some pub => (Rcllite.pubPublish iovLenBits allocated accepted pub.topic payload).map fun r =>
      (r.1.map fun d => (pub, d), r.2.mapError .valueError)

def NodeRegistry.pubPublish (iovLenBits : ℕ) (allocated accepted : Bool) (handle : ℤ) (payload : List UInt8)
    (s : NodeRegistry) : Except MemoryFault (Option (Endpoint × List UInt8) × Except FfiError Unit) :=
  publishThrough iovLenBits allocated accepted handle payload ((s.find .pub handle).map Prod.snd)

/-- What stands behind a handle. -/
inductive Listing where
  | node
  | endpoint (kind : EndpointKind) (node : ℤ) (e : Endpoint)
deriving DecidableEq

namespace Listing

/-- Destroying the node `n` takes the listing of `handle` away. -/
def GoesWith (n handle : ℤ) : Listing → Prop
  | .node => handle = n
  | .endpoint _ owner _ => owner = n

instance (n handle : ℤ) (l : Listing) : Decidable (l.GoesWith n handle) :=
  match l with
  | .node => inferInstanceAs (Decidable (handle = n))
  | .endpoint _ owner _ => inferInstanceAs (Decidable (owner = n))

end Listing

/-- The directory of the live handles. -/
structure Directory where
  listed : ℤ → Option Listing
  next : ℤ

namespace NodeRegistry

/-- The registry has `l` behind the handle. -/
def Holds (s : NodeRegistry) (handle : ℤ) : Listing → Prop
  | .node => ∃ entry, s.registry.find? handle = some entry
  | .endpoint kind node e => ∃ entry, s.registry.find? node = some entry ∧ (entry.endpoints kind).find? handle = some e

/-- Every handle was given out once, for one thing. -/
structure Sound (s : NodeRegistry) : Prop where
  unique : ∀ h l l', s.Holds h l → s.Holds h l' → l = l'
  given : ∀ h l, s.Holds h l → 0 < h ∧ h < s.next

section Holds
variable {s : NodeRegistry}

theorem Sound.not_holds_next (hs : s.Sound) (l : Listing) : ¬ s.Holds s.next l :=
  fun h => absurd (hs.given _ _ h).2 (Int.lt_irrefl _)

/-- An endpoint is in one node at most. -/
theorem Sound.node_unique (hs : s.Sound) {kind : EndpointKind} {handle k k' : ℤ} {v v' : NodeEntry}
    (hv : s.registry.find? k = some v) (hv' : s.registry.find? k' = some v')
    (hf : ((v.endpoints kind).find? handle).isSome) (hf' : ((v'.endpoints kind).find? handle).isSome) : k = k' := by
  obtain ⟨e, he⟩ := Option.isSome_iff_exists.mp hf
  obtain ⟨e', he'⟩ := Option.isSome_iff_exists.mp hf'
  have hsame := hs.unique handle (.endpoint kind k e) (.endpoint kind k' e') ⟨v, hv, he⟩ ⟨v', hv', he'⟩
  cases hsame
  rfl

/-- So the order of the search does not matter. -/
theorem Sound.find_eq_some (hs : s.Sound) {kind : EndpointKind} {handle node : ℤ} {e : Endpoint} :
    s.find kind handle = some (node, e) ↔ s.Holds handle (.endpoint kind node e) :=
  AssocMap.findFirst?_eq_some_iff (fun _ _ _ _ hv hv' hf hf' => hs.node_unique hv hv' hf hf')

theorem holds_nodeCreate (hs : s.Sound) {h : ℤ} {l : Listing} :
    s.nodeCreate.2.Holds h l ↔ s.Holds h l ∨ h = s.next ∧ l = .node := by
  have hfresh : s.registry.find? s.next = none := by
    refine Option.eq_none_iff_forall_ne_some.mpr (fun entry hentry => ?_)
    exact hs.not_holds_next .node ⟨entry, hentry⟩
  cases l with
  | node =>
    change (∃ entry, (s.registry.insert s.next .new).find? h = some entry) ↔ (∃ entry, _) ∨ _
    by_cases hh : h = s.next
    · subst hh
      rw [AssocMap.find?_insert_self]
      simp
    · rw [AssocMap.find?_insert_ne _ _ hh]
      simp [hh]
  | endpoint kind node e =>
    change (∃ entry, (s.registry.insert s.next .new).find? node = some entry ∧ _) ↔ (∃ entry, _) ∨ _
    by_cases hn : node = s.next
    · subst hn
      rw [AssocMap.find?_insert_self, hfresh]
      cases kind <;> simp [NodeEntry.new, NodeEntry.endpoints, AssocMap.empty, AssocMap.find?]
    · rw [AssocMap.find?_insert_ne _ _ hn]
      simp

theorem holds_nodeDestroy {n h : ℤ} {l : Listing} :
    (s.nodeDestroy n).Holds h l ↔ s.Holds h l ∧ ¬ l.GoesWith n h := by
  cases l with
  | node =>
    change (∃ entry, (s.registry.erase n).find? h = some entry) ↔ (∃ entry, _) ∧ ¬ h = n
    by_cases hh : h = n
    · subst hh
      rw [AssocMap.find?_erase_self]
      simp
    · rw [AssocMap.find?_erase_ne _ hh]
      simp [hh]
  | endpoint kind node e =>
    change (∃ entry, (s.registry.erase n).find? node = some entry ∧ _) ↔ (∃ entry, _) ∧ ¬ node = n
    by_cases hn : node = n
    · subst hn
      rw [AssocMap.find?_erase_self]
      simp
    · rw [AssocMap.find?_erase_ne _ hn]
      simp [hn]

theorem holds_rehash (order : List ℤ) {h : ℤ} {l : Listing} : (s.rehash order).Holds h l ↔ s.Holds h l := by
  have hfind : ∀ k, (s.rehash order).registry.find? k = s.registry.find? k :=
    AssocMap.find?_arrange s.registry order
  cases l with
  | node =>
    change (∃ entry, _) ↔ (∃ entry, _)
    rw [hfind]
  | endpoint kind node e =>
    change (∃ entry, _ ∧ _) ↔ (∃ entry, _ ∧ _)
    rw [hfind]

theorem endpointCreate_cases {kind : EndpointKind} {node : ℤ} {topic typeName : String}
    {made : Except (List UInt8) Unit} {x : ℤ × NodeRegistry}
    (hc : s.endpointCreate kind node topic typeName made = .ok x) :
    ∃ type entry, ddsTypeName (literal typeName) = .ok type ∧ s.registry.find? node = some entry ∧ x.1 = s.next ∧
      x.2 = ⟨s.registry.insert node
        (entry.setEndpoints ((entry.endpoints kind).insert s.next ⟨topic, type⟩) kind), s.next + 1⟩ := by
  unfold endpointCreate lookup at hc
  cases htype : ddsTypeName (literal typeName) with
  | error e =>
    rw [htype] at hc
    cases hc
  | ok type =>
    rw [htype] at hc
    cases hentry : s.registry.find? node with
    | none =>
      rw [hentry] at hc
      cases hc
    | some entry =>
      rw [hentry] at hc
      dsimp only at hc
      cases htopic : rosToDdsTopicName (literal topic) with
      | error e =>
        rw [htopic] at hc
        cases hc
      | ok name =>
        rw [htopic] at hc
        cases made with
        | error e => cases hc
        | ok u =>
          cases hc
          exact ⟨type, entry, rfl, rfl, rfl, rfl⟩

/-- One more endpoint of a node that there is. -/
theorem holds_insert (hs : s.Sound) {kind : EndpointKind} {node : ℤ} {entry : NodeEntry} {e : Endpoint}
    (hentry : s.registry.find? node = some entry) {h : ℤ} {l : Listing} :
    NodeRegistry.Holds ⟨s.registry.insert node
      (entry.setEndpoints ((entry.endpoints kind).insert s.next e) kind), s.next + 1⟩ h l ↔
      s.Holds h l ∨ h = s.next ∧ l = .endpoint kind node e := by
  cases l with
  | node =>
    change (∃ entry', (s.registry.insert node _).find? h = some entry') ↔ (∃ entry', _) ∨ _
    by_cases hh : h = node
    · subst hh
      rw [AssocMap.find?_insert_self, hentry]
      simp
    · rw [AssocMap.find?_insert_ne _ _ hh]
      simp
  | endpoint kind' node' e' =>
    change (∃ entry', (s.registry.insert node _).find? node' = some entry' ∧ _) ↔ (∃ entry', _) ∨ _
    by_cases hn : node' = node
    · subst hn
      rw [AssocMap.find?_insert_self, hentry]
      by_cases hk : kind' = kind
      · subst hk
        by_cases hh : h = s.next
        · subst hh
          have hfresh : (entry.endpoints kind').find? s.next = none := by
            refine Option.eq_none_iff_forall_ne_some.mpr (fun e'' he'' => ?_)
            exact hs.not_holds_next (.endpoint kind' node' e'') ⟨entry, hentry, he''⟩
          simp [hfresh, eq_comm]
        · simp [AssocMap.find?_insert_ne _ _ hh, hh]
      · have hne : Listing.endpoint kind' node' e' ≠ .endpoint kind node' e := by
          intro h
          cases h
          exact hk rfl
        simp [NodeEntry.endpoints_setEndpoints_ne _ _ hk, hne]
    · rw [AssocMap.find?_insert_ne _ _ hn]
      have hne : Listing.endpoint kind' node' e' ≠ .endpoint kind node e := by
        intro h
        cases h
        exact hn rfl
      simp [hne]

theorem holds_endpointDestroy (hs : s.Sound) {kind : EndpointKind} {handle h : ℤ} {l : Listing} :
    (s.endpointDestroy kind handle).Holds h l ↔
      s.Holds h l ∧ ¬ (h = handle ∧ ∃ node e, l = .endpoint kind node e) := by
  have hfind := AssocMap.find?_updateFirst (m := s.registry) (f := NodeEntry.eraseEndpoint kind handle)
    (fun _ _ _ _ hv hv' hf hf' => hs.node_unique hv hv' (NodeEntry.eraseEndpoint_isSome.mp hf)
      (NodeEntry.eraseEndpoint_isSome.mp hf'))
  cases l with
  | node =>
    change (∃ entry, (s.registry.updateFirst _).find? h = some entry) ↔ (∃ entry, _) ∧ _
    rw [hfind]
    simp
  | endpoint kind' node e =>
    change (∃ entry, (s.registry.updateFirst _).find? node = some entry ∧ _) ↔ (∃ entry, _ ∧ _) ∧ _
    rw [hfind]
    cases hentry : s.registry.find? node with
    | none => simp
    | some entry =>
      have hval := entry.find?_eraseEndpoint kind kind' handle h
      by_cases hboth : kind' = kind ∧ h = handle
      · obtain ⟨rfl, rfl⟩ := hboth
        rw [if_pos ⟨rfl, rfl⟩] at hval
        simp [hval]
      · rw [if_neg hboth] at hval
        simpa [hval] using fun _ hh hk => hboth ⟨hk, hh⟩

end Holds

end NodeRegistry

namespace Directory

def new : Directory := ⟨fun _ => none, 1⟩

def add (l : Listing) (d : Directory) : Directory := ⟨Function.update d.listed d.next (some l), d.next + 1⟩

theorem add_listed_self (l : Listing) (d : Directory) : (d.add l).listed d.next = some l := Function.update_self ..

def remove (handle : ℤ) (d : Directory) : Directory := { d with listed := Function.update d.listed handle none }

def nodeCreate (d : Directory) : ℤ × Directory := (d.next, d.add .node)

def nodeDestroy (handle : ℤ) (d : Directory) : Directory :=
  { d with listed := fun h => (d.listed h).filter fun l => decide (¬ l.GoesWith handle h) }

def lookup (handle : ℤ) (d : Directory) : Except FfiError Unit :=
  if d.listed handle = some .node then .ok ()
  else .error (.valueError ("unknown node handle: " ++ toString handle))

def endpointCreate (kind : EndpointKind) (node : ℤ) (topic typeName : String) (made : Except (List UInt8) Unit)
    (d : Directory) : Except FfiError (ℤ × Directory) := do
  let type ← (ddsTypeName (literal typeName)).mapError FfiError.rcl
  d.lookup node
  let _ ← (rosToDdsTopicName (literal topic)).mapError FfiError.rcl
  made.mapError FfiError.rcl
  pure (d.next, d.add (.endpoint kind node ⟨topic, type⟩))

def find (kind : EndpointKind) (handle : ℤ) (d : Directory) : Option (ℤ × Endpoint) :=
  match d.listed handle with
  | some (.endpoint k node e) => if k = kind then some (node, e) else none
  | _ => none

def endpointDestroy (kind : EndpointKind) (handle : ℤ) (d : Directory) : Directory :=
  if (d.find kind handle).isSome then d.remove handle else d

theorem find_eq_some {kind : EndpointKind} {handle node : ℤ} {e : Endpoint} {d : Directory} :
    d.find kind handle = some (node, e) ↔ d.listed handle = some (.endpoint kind node e) := by
  unfold find
  split
  · split_ifs with hk
    · simp_all
    · simp_all
  · simp_all

theorem endpointDestroy_next (kind : EndpointKind) (handle : ℤ) (d : Directory) :
    (d.endpointDestroy kind handle).next = d.next := by
  unfold endpointDestroy
  split_ifs <;> rfl

theorem listed_endpointDestroy {kind : EndpointKind} {handle k : ℤ} {l : Listing} {d : Directory} :
    (d.endpointDestroy kind handle).listed k = some l ↔
      d.listed k = some l ∧ ¬ (handle = k ∧ ∃ node e, l = .endpoint kind node e) := by
  unfold endpointDestroy
  split_ifs with hsome
  · obtain ⟨⟨node, e⟩, hfind⟩ := Option.isSome_iff_exists.mp hsome
    have hlisted := find_eq_some.mp hfind
    change Function.update d.listed handle none k = some l ↔ _
    by_cases hk : k = handle
    · subst hk
      rw [Function.update_self, hlisted]
      simp only [reduceCtorEq, Option.some.injEq, true_and, false_iff]
      rintro ⟨rfl, hnot⟩
      exact hnot ⟨node, e, rfl⟩
    · rw [Function.update_of_ne hk]
      simp [Ne.symm hk]
  · refine ⟨fun hl => ⟨hl, ?_⟩, fun h => h.1⟩
    rintro ⟨rfl, node, e, rfl⟩
    exact hsome (by rw [find_eq_some.mpr hl]; rfl)

end Directory

/-- The critical sections of the calls on nodes, publishers and subscriptions. `lookup` is what the calls that
only name, spin or cancel a node begin with. `rehash` is no call, but a new order of the nodes, which may come
about before any of them. -/
inductive RegistryCall where
  | rehash (order : List ℤ)
  | nodeCreate
  | nodeDestroy (handle : ℤ)
  | lookup (handle : ℤ)
  | create (kind : EndpointKind) (node : ℤ) (topic typeName : String) (made : Except (List UInt8) Unit)
  | publish (iovLenBits : ℕ) (allocated accepted : Bool) (handle : ℤ) (payload : List UInt8)
  | pubDestroy (handle : ℤ)
  | subDestroy (handle : ℤ)

inductive RegistryReply where
  | handle (r : Except FfiError ℤ)
  | done (r : Except FfiError Unit)
  | published (r : Except MemoryFault (Option (Endpoint × List UInt8) × Except FfiError Unit))
  | closing (r : Option (ℤ × Endpoint))

/-- The reply to a call that creates, and the state behind it. -/
def created {σ : Type} (s : σ) : Except FfiError (ℤ × σ) → RegistryReply × σ
  | .ok (h, s') => (.handle (.ok h), s')
  | .error e => (.handle (.error e), s)

def NodeRegistry.call : RegistryCall → NodeRegistry → RegistryReply × NodeRegistry
  | .rehash order, s => (.done (.ok ()), s.rehash order)
  | .nodeCreate, s => created s (.ok s.nodeCreate)
  | .nodeDestroy h, s => (.done (.ok ()), s.nodeDestroy h)
  | .lookup h, s => (.done ((s.lookup h).map fun _ => ()), s)
  | .create .pub node topic typeName made, s => created s (s.pubCreate node topic typeName made)
  | .create .sub node topic typeName made, s => created s (s.subCreate node topic typeName made)
  | .publish bits allocated accepted h payload, s => (.published (s.pubPublish bits allocated accepted h payload), s)
  | .pubDestroy h, s => (.done (.ok ()), s.pubDestroy h)
  | .subDestroy h, s => (.closing (s.subDestroy h).1, (s.subDestroy h).2)

def Directory.call : RegistryCall → Directory → RegistryReply × Directory
  | .rehash _, d => (.done (.ok ()), d)
  | .nodeCreate, d => created d (.ok d.nodeCreate)
  | .nodeDestroy h, d => (.done (.ok ()), d.nodeDestroy h)
  | .lookup h, d => (.done (d.lookup h), d)
  | .create kind node topic typeName made, d => created d (d.endpointCreate kind node topic typeName made)
  | .publish bits allocated accepted h payload, d =>
    (.published (publishThrough bits allocated accepted h payload ((d.find .pub h).map Prod.snd)), d)
  | .pubDestroy h, d => (.done (.ok ()), d.endpointDestroy .pub h)
  | .subDestroy h, d => (.closing (d.find .sub h), d.endpointDestroy .sub h)

/-- The directory lists what the registry holds, and nothing under a handle that was not given out. -/
structure Represents (s : NodeRegistry) (d : Directory) : Prop where
  next : s.next = d.next
  positive : 0 < d.next
  holds : ∀ h l, s.Holds h l ↔ d.listed h = some l
  given : ∀ h l, d.listed h = some l → 0 < h ∧ h < d.next

namespace Represents
variable {s s' : NodeRegistry} {d : Directory} (hR : Represents s d)
include hR

theorem sound : s.Sound where
  unique h l l' hl hl' := Option.some.inj (((hR.holds h l).mp hl).symm.trans ((hR.holds h l').mp hl'))
  given h l hl := hR.next ▸ hR.given h l ((hR.holds h l).mp hl)

theorem find (kind : EndpointKind) (handle : ℤ) : s.find kind handle = d.find kind handle := by
  apply Option.ext
  rintro ⟨node, e⟩
  rw [hR.sound.find_eq_some, hR.holds, Directory.find_eq_some]

theorem add {l : Listing} (hnext : s'.next = s.next + 1)
    (h : ∀ k l', s'.Holds k l' ↔ s.Holds k l' ∨ k = s.next ∧ l' = l) : Represents s' (d.add l) := by
  have hlisted : ∀ k l', (d.add l).listed k = some l' ↔ d.listed k = some l' ∨ k = d.next ∧ l' = l := by
    intro k l'
    change Function.update d.listed d.next (some l) k = some l' ↔ _
    by_cases hk : k = d.next
    · subst hk
      have hfresh : d.listed d.next ≠ some l' := fun h => absurd (hR.given _ _ h).2 (Int.lt_irrefl _)
      rw [Function.update_self]
      simp [hfresh, eq_comm]
    · rw [Function.update_of_ne hk]
      simp [hk]
  refine ⟨by rw [hnext, hR.next, Directory.add], Int.lt_add_one_of_le hR.positive.le, fun k l' => ?_, fun k l' hk => ?_⟩
  · rw [h, hlisted, hR.holds, hR.next]
  · rcases (hlisted k l').mp hk with hold | ⟨rfl, -⟩
    · exact ⟨(hR.given k l' hold).1, Int.lt_add_one_of_le (le_of_lt (hR.given k l' hold).2)⟩
    · exact ⟨hR.positive, Int.lt_succ _⟩

theorem restrict {d' : Directory} {P : ℤ → Listing → Prop} (hnext : s'.next = s.next) (hnext' : d'.next = d.next)
    (h : ∀ k l, s'.Holds k l ↔ s.Holds k l ∧ P k l) (h' : ∀ k l, d'.listed k = some l ↔ d.listed k = some l ∧ P k l) :
    Represents s' d' := by
  refine ⟨by rw [hnext, hR.next, hnext'], by rw [hnext']; exact hR.positive, fun k l => ?_, fun k l hk => ?_⟩
  · rw [h, h', hR.holds]
  · rw [hnext']
    exact hR.given k l ((h' k l).mp hk).1

theorem rehash (order : List ℤ) : Represents (s.rehash order) d :=
  ⟨hR.next, hR.positive, fun h l => (NodeRegistry.holds_rehash order).trans (hR.holds h l), hR.given⟩

theorem nodeDestroy (handle : ℤ) : Represents (s.nodeDestroy handle) (d.nodeDestroy handle) := by
  refine hR.restrict rfl rfl (fun k l => NodeRegistry.holds_nodeDestroy) (fun k l => ?_)
  change (d.listed k).filter _ = some l ↔ _
  rw [Option.filter_eq_some_iff, decide_eq_true_iff]

theorem endpointDestroy (kind : EndpointKind) (handle : ℤ) :
    Represents (s.endpointDestroy kind handle) (d.endpointDestroy kind handle) := by
  refine hR.restrict rfl (Directory.endpointDestroy_next kind handle d)
    (fun k l => NodeRegistry.holds_endpointDestroy hR.sound) (fun k l => ?_)
  rw [Directory.listed_endpointDestroy, eq_comm (a := k)]

theorem lookup (handle : ℤ) : (s.lookup handle).map (fun _ => ()) = d.lookup handle := by
  have hholds := hR.holds handle .node
  unfold NodeRegistry.lookup Directory.lookup
  cases hentry : s.registry.find? handle with
  | none =>
    have hnot : d.listed handle ≠ some .node := by
      intro h
      obtain ⟨entry, h⟩ := hholds.mpr h
      rw [hentry] at h
      cases h
    rw [if_neg hnot]
    rfl
  | some entry =>
    rw [if_pos (hholds.mp ⟨entry, hentry⟩)]
    rfl

theorem endpointCreate (kind : EndpointKind) (node : ℤ) (topic typeName : String) (made : Except (List UInt8) Unit) :
    (created s (s.endpointCreate kind node topic typeName made)).1 =
      (created d (d.endpointCreate kind node topic typeName made)).1 ∧
    Represents (created s (s.endpointCreate kind node topic typeName made)).2
      (created d (d.endpointCreate kind node topic typeName made)).2 := by
  have hlookup := hR.lookup node
  unfold NodeRegistry.endpointCreate Directory.endpointCreate
  cases ddsTypeName (literal typeName) with
  | error e => exact ⟨rfl, hR⟩
  | ok type =>
    dsimp only [Except.mapError, bind, Except.bind]
    rw [← hlookup]
    cases hentry : s.lookup node with
    | error e => exact ⟨rfl, hR⟩
    | ok entry =>
      dsimp only [Except.map]
      cases rosToDdsTopicName (literal topic) with
      | error e => exact ⟨rfl, hR⟩
      | ok name =>
        cases made with
        | error e => exact ⟨rfl, hR⟩
        | ok u =>
          have hfind : s.registry.find? node = some entry := by
            unfold NodeRegistry.lookup at hentry
            cases hf : s.registry.find? node with
            | none =>
              rw [hf] at hentry
              cases hentry
            | some entry' =>
              rw [hf] at hentry
              rw [Except.ok.inj hentry]
          refine ⟨?_, hR.add rfl (fun k l => NodeRegistry.holds_insert hR.sound hfind)⟩
          change RegistryReply.handle (.ok s.next) = .handle (.ok d.next)
          rw [hR.next]

end Represents

theorem represents_new : Represents .new .new where
  next := rfl
  positive := Int.one_pos
  holds h l := by cases l <;> simp [NodeRegistry.Holds, NodeRegistry.new, Directory.new, AssocMap.find?, AssocMap.empty]
  given h l hl := by cases hl

/-- One critical section. -/
theorem call_simulates (c : RegistryCall) (s : NodeRegistry) (d : Directory) (hR : Represents s d) :
    (NodeRegistry.call c s).1 = (Directory.call c d).1 ∧
      Represents (NodeRegistry.call c s).2 (Directory.call c d).2 := by
  cases c with
  | rehash order => exact ⟨rfl, hR.rehash order⟩
  | nodeCreate =>
    refine ⟨?_, hR.add rfl (fun k l => NodeRegistry.holds_nodeCreate hR.sound)⟩
    change RegistryReply.handle (.ok s.next) = .handle (.ok d.next)
    rw [hR.next]
  | nodeDestroy h => exact ⟨rfl, hR.nodeDestroy h⟩
  | lookup h => exact ⟨congrArg RegistryReply.done (hR.lookup h), hR⟩
  | create kind node topic typeName made =>
    cases kind with
    | pub => exact hR.endpointCreate .pub node topic typeName made
    | sub => exact hR.endpointCreate .sub node topic typeName made
  | publish bits allocated accepted h payload =>
    refine ⟨?_, hR⟩
    change RegistryReply.published (publishThrough _ _ _ _ _ ((s.find .pub h).map _)) = _
    rw [hR.find]
    rfl
  | pubDestroy h => exact ⟨rfl, hR.endpointDestroy .pub h⟩
  | subDestroy h => exact ⟨congrArg RegistryReply.closing (hR.find .sub h), hR.endpointDestroy .sub h⟩

/-- The handles that were given out. -/
def RegistryReply.given : RegistryReply → Option ℤ
  | .handle (.ok h) => some h
  | _ => none

/-- The call asks for a handle for `l`. -/
def RegistryCall.Creates (l : Listing) : RegistryCall → Prop
  | .nodeCreate => l = .node
  | .create kind node topic typeName _ =>
    ∃ type, ddsTypeName (literal typeName) = .ok type ∧ l = .endpoint kind node ⟨topic, type⟩
  | _ => False

/-- The call takes `l` away from the handle. -/
def RegistryCall.Ends (h : ℤ) (l : Listing) : RegistryCall → Prop
  | .nodeDestroy n => l.GoesWith n h
  | .pubDestroy k => k = h ∧ ∃ node e, l = .endpoint .pub node e
  | .subDestroy k => k = h ∧ ∃ node e, l = .endpoint .sub node e
  | _ => False

namespace Directory
variable {d : Directory}

theorem endpointCreate_cases {kind : EndpointKind} {node : ℤ} {topic typeName : String}
    {made : Except (List UInt8) Unit} {x : ℤ × Directory}
    (h : d.endpointCreate kind node topic typeName made = .ok x) :
    ∃ type, ddsTypeName (literal typeName) = .ok type ∧ x = (d.next, d.add (.endpoint kind node ⟨topic, type⟩)) := by
  unfold endpointCreate at h
  cases htype : ddsTypeName (literal typeName) with
  | error e =>
    rw [htype] at h
    cases h
  | ok type =>
    rw [htype] at h
    dsimp only [Except.mapError, bind, Except.bind] at h
    cases hlookup : d.lookup node with
    | error e =>
      rw [hlookup] at h
      cases h
    | ok u =>
      rw [hlookup] at h
      dsimp only at h
      cases htopic : rosToDdsTopicName (literal topic) with
      | error e =>
        rw [htopic] at h
        cases h
      | ok name =>
        rw [htopic] at h
        cases made with
        | error e => cases h
        | ok v => exact ⟨type, rfl, (Except.ok.inj h).symm⟩

/-- A call lists one thing more, under the next handle, or takes some away. -/
theorem call_cases (c : RegistryCall) (d : Directory) :
    (∃ l, c.Creates l ∧ Directory.call c d = (.handle (.ok d.next), d.add l)) ∨
      (Directory.call c d).1.given = none ∧ (Directory.call c d).2.next = d.next ∧
      ∀ h l, (Directory.call c d).2.listed h = some l ↔ d.listed h = some l ∧ ¬ c.Ends h l := by
  cases c with
  | rehash order => exact Or.inr ⟨rfl, rfl, fun h l => ⟨fun hl => ⟨hl, id⟩, fun hl => hl.1⟩⟩
  | nodeCreate => exact Or.inl ⟨.node, rfl, rfl⟩
  | nodeDestroy n =>
    refine Or.inr ⟨rfl, rfl, fun h l => ?_⟩
    change (d.listed h).filter _ = some l ↔ _
    rw [Option.filter_eq_some_iff, decide_eq_true_iff]
    rfl
  | lookup n => exact Or.inr ⟨rfl, rfl, fun h l => ⟨fun hl => ⟨hl, id⟩, fun hl => hl.1⟩⟩
  | create kind node topic typeName made =>
    cases hcreate : d.endpointCreate kind node topic typeName made with
    | error e =>
      right
      rw [Directory.call, hcreate]
      exact ⟨rfl, rfl, fun h l => ⟨fun hl => ⟨hl, id⟩, fun hl => hl.1⟩⟩
    | ok x =>
      obtain ⟨type, htype, rfl⟩ := endpointCreate_cases hcreate
      refine Or.inl ⟨.endpoint kind node ⟨topic, type⟩, ⟨type, htype, rfl⟩, ?_⟩
      rw [Directory.call, hcreate]
      rfl
  | publish bits allocated accepted n payload =>
    exact Or.inr ⟨rfl, rfl, fun h l => ⟨fun hl => ⟨hl, id⟩, fun hl => hl.1⟩⟩
  | pubDestroy n => exact Or.inr ⟨rfl, endpointDestroy_next .pub n d, fun h l => listed_endpointDestroy⟩
  | subDestroy n => exact Or.inr ⟨rfl, endpointDestroy_next .sub n d, fun h l => listed_endpointDestroy⟩

theorem call_next_le (c : RegistryCall) (d : Directory) : d.next ≤ (Directory.call c d).2.next := by
  rcases call_cases c d with ⟨l, -, hcall⟩ | ⟨-, hnext, -⟩
  · rw [hcall]
    exact Int.le_of_lt (Int.lt_succ _)
  · exact hnext.ge

/-- What was listed before a call is listed behind it, unless the call ends it. -/
theorem listed_call (c : RegistryCall) {h : ℤ} (hh : h < d.next) (l : Listing) :
    (Directory.call c d).2.listed h = some l ↔ d.listed h = some l ∧ ¬ c.Ends h l := by
  rcases call_cases c d with ⟨l', hcreates, hcall⟩ | ⟨-, -, hlisted⟩
  · have hnot : ¬ c.Ends h l := by
      cases c with
      | nodeCreate => exact id
      | create kind node topic typeName made => exact id
      | _ => exact hcreates.elim
    rw [hcall]
    change Function.update d.listed d.next (some l') h = some l ↔ _
    rw [Function.update_of_ne (Int.ne_of_lt hh)]
    exact ⟨fun hl => ⟨hl, hnot⟩, fun hl => hl.1⟩
  · exact hlisted h l

/-- A handle is not given out a second time, so its listing lasts until a call ends it. -/
theorem listed_run (calls : List RegistryCall) {h : ℤ} (hh : h < d.next) (l : Listing) :
    (runCalls Directory.call calls d).2.listed h = some l ↔ d.listed h = some l ∧ ∀ c ∈ calls, ¬ c.Ends h l := by
  induction calls generalizing d with
  | nil => simp [runCalls]
  | cons c calls ih =>
    rw [runCalls, ih (lt_of_lt_of_le hh (call_next_le c d)), listed_call c hh, List.forall_mem_cons, and_assoc]

theorem given_run (calls : List RegistryCall) (d : Directory) :
    (((runCalls Directory.call calls d).1.filterMap RegistryReply.given).Pairwise (· < ·)) ∧
      ∀ h ∈ (runCalls Directory.call calls d).1.filterMap RegistryReply.given, d.next ≤ h := by
  induction calls generalizing d with
  | nil => exact ⟨List.Pairwise.nil, fun h hh => absurd hh List.not_mem_nil⟩
  | cons c calls ih =>
    obtain ⟨hpair, hle⟩ := ih (Directory.call c d).2
    rw [runCalls]
    rcases call_cases c d with ⟨l, -, hcall⟩ | ⟨hnone, hnext, -⟩
    · rw [hcall] at hpair hle ⊢
      refine ⟨List.pairwise_cons.mpr ⟨hle, hpair⟩, fun h hh => ?_⟩
      rcases List.mem_cons.mp hh with rfl | hh
      · exact le_refl _
      · exact (Int.le_of_lt (Int.lt_succ _)).trans (hle h hh)
    · rw [List.filterMap_cons, hnone]
      exact ⟨hpair, fun h hh => hnext.symm.le.trans (hle h hh)⟩

end Directory

theorem represents_run (calls : List RegistryCall) :
    (runCalls NodeRegistry.call calls .new).1 = (runCalls Directory.call calls .new).1 ∧
      Represents (runCalls NodeRegistry.call calls .new).2 (runCalls Directory.call calls .new).2 :=
  runCalls_simulation call_simulates calls represents_new

/-- Whatever the threads do and in whatever order the nodes are searched, the calls return what the directory
returns, and the handles they give out rise from 1: none is 0, and none is given out twice. The order may be any
at any time: every arrangement of the nodes is one `rehash` away. -/
theorem registry_refines_directory (calls : List RegistryCall) :
    (runCalls NodeRegistry.call calls .new).1 = (runCalls Directory.call calls .new).1 ∧
    ((runCalls NodeRegistry.call calls .new).1.filterMap RegistryReply.given).Pairwise (· < ·) ∧
    (∀ h ∈ (runCalls NodeRegistry.call calls .new).1.filterMap RegistryReply.given, 0 < h) ∧
    ∀ entries, entries.Perm (runCalls NodeRegistry.call calls .new).2.registry.entries →
      ∃ order, ((runCalls NodeRegistry.call calls .new).2.rehash order).registry.entries = entries := by
  have hreplies := (represents_run calls).1
  obtain ⟨hpair, hle⟩ := Directory.given_run calls .new
  refine ⟨hreplies, ?_, ?_, fun entries h => AssocMap.exists_arrange _ h⟩
  · rw [hreplies]
    exact hpair
  · rw [hreplies]
    exact hle

theorem RegistryCall.Creates.unique {c : RegistryCall} {l l' : Listing} (h : c.Creates l) (h' : c.Creates l') :
    l = l' := by
  cases c with
  | nodeCreate => exact h.trans h'.symm
  | create kind node topic typeName made =>
    obtain ⟨type, htype, rfl⟩ := h
    obtain ⟨type', htype', rfl⟩ := h'
    rw [htype] at htype'
    rw [Except.ok.inj htype']
  | _ => exact h.elim

/-- A handle stands for what it was created for, from its creation to the first call that destroys that or the
node it belongs to, and for nothing ever after. Until then a publisher writes to its own topic; from then on,
and for a handle of another kind at any time, publishing raises. -/
theorem handle_lifetime (before after : List RegistryCall) (c : RegistryCall) (l : Listing) (h : ℤ)
    (hc : c.Creates l)
    (hreply : (NodeRegistry.call c (runCalls NodeRegistry.call before .new).2).1 = .handle (.ok h)) :
    (∀ l', (runCalls NodeRegistry.call (before ++ c :: after) .new).2.Holds h l' ↔
      l' = l ∧ ∀ c' ∈ after, ¬ c'.Ends h l) ∧
    ∀ bits allocated accepted payload,
      (∀ node e, l = .endpoint .pub node e → (∀ c' ∈ after, ¬ c'.Ends h l) →
        (runCalls NodeRegistry.call (before ++ c :: after) .new).2.pubPublish bits allocated accepted h payload =
          publishThrough bits allocated accepted h payload (some e)) ∧
      ((∀ node e, l ≠ .endpoint .pub node e) ∨ (∃ c' ∈ after, c'.Ends h l) →
        (runCalls NodeRegistry.call (before ++ c :: after) .new).2.pubPublish bits allocated accepted h payload =
          .ok (none, .error (.valueError ("unknown publisher handle: " ++ toString h)))) := by
  have hR := (represents_run (before ++ c :: after)).2
  obtain ⟨hcall, -⟩ := call_simulates c _ _ (represents_run before).2
  rw [hreply] at hcall
  have hholds : ∀ l', (runCalls NodeRegistry.call (before ++ c :: after) .new).2.Holds h l' ↔
      l' = l ∧ ∀ c' ∈ after, ¬ c'.Ends h l := by
    intro l'
    rcases Directory.call_cases c (runCalls Directory.call before .new).2 with ⟨l₀, hl₀, hadd⟩ | ⟨hnone, -, -⟩
    · rw [hadd] at hcall
      obtain rfl : l₀ = l := hl₀.unique hc
      obtain rfl : h = (runCalls Directory.call before .new).2.next := by
        injection hcall with heq
        exact Except.ok.inj heq
      rw [hR.holds, runCalls_append, runCalls, hadd, Directory.listed_run after (Int.lt_succ _)]
      rw [Directory.add_listed_self, Option.some_inj]
      refine ⟨?_, ?_⟩
      · rintro ⟨rfl, hafter⟩
        exact ⟨rfl, hafter⟩
      · rintro ⟨rfl, hafter⟩
        exact ⟨rfl, hafter⟩
    · rw [← hcall] at hnone
      cases hnone
  refine ⟨hholds, fun bits allocated accepted payload => ⟨fun node e hl hafter => ?_, fun hgone => ?_⟩⟩
  · have hfind := hR.sound.find_eq_some.mpr ((hholds (.endpoint .pub node e)).mpr ⟨hl.symm, hafter⟩)
    rw [NodeRegistry.pubPublish, hfind]
    rfl
  · have hnone : (runCalls NodeRegistry.call (before ++ c :: after) .new).2.find .pub h = none := by
      refine Option.eq_none_iff_forall_ne_some.mpr (fun x hx => ?_)
      obtain ⟨hl, hafter⟩ := (hholds (.endpoint .pub x.1 x.2)).mp (hR.sound.find_eq_some.mp hx)
      rcases hgone with hother | ⟨c', hc', hends⟩
      · exact hother x.1 x.2 hl.symm
      · exact hafter c' hc' hends
    rw [NodeRegistry.pubPublish, hnone]
    rfl

/-- Publisher 2 of node 1, while another node comes and goes. -/
theorem handle_lifetime_chatter :
    (runCalls NodeRegistry.call ([.nodeCreate] ++ .create .pub 1 "/chatter" "std_msgs/msg/String" (.ok ()) ::
      [.nodeCreate, .subDestroy 2, .nodeDestroy 3]) .new).2.pubPublish 64 true true 2 [0, 1, 0, 0] =
      publishThrough 64 true true 2 [0, 1, 0, 0] (some ⟨"/chatter", literal "std_msgs::msg::dds_::String_"⟩) := by
  refine ((handle_lifetime [.nodeCreate] [.nodeCreate, .subDestroy 2, .nodeDestroy 3]
    (.create .pub 1 "/chatter" "std_msgs/msg/String" (.ok ()))
    (.endpoint .pub 1 ⟨"/chatter", literal "std_msgs::msg::dds_::String_"⟩) 2
    ⟨literal "std_msgs::msg::dds_::String_", by rfl, rfl⟩ (by rfl)).2 64 true true [0, 1, 0, 0]).1 1 _ rfl ?_
  intro c hc
  simp only [List.mem_cons, List.not_mem_nil, or_false] at hc
  rcases hc with rfl | rfl | rfl
  · exact id
  · simp [RegistryCall.Ends]
  · simp [RegistryCall.Ends, Listing.GoesWith]

end Rcllite
