import Rcllite.SnapshotReading
import Rcllite.TopologyRun

/-! `status_json` of a `GraphExecutor` at work, and `GraphExecutor.status` of `executor.py`. The counters are read
one after the other while the publishers go on, so a status need not show what was ever the case at once; each
number in it lies between what was the case when the call began and when it ended. -/
namespace Rcllite.Topology
open JsonValue (Value)
open Transition
open Utf8 (literal)

inductive Counter where
  | published (i : ℕ)
  | received (j : ℕ)
deriving DecidableEq

def Runtime.counter (s : Runtime) : Counter → BitVec 64
  | .published i => s.publishedAt i
  | .received j => s.receivedAt j

/-- What the counter has counted. -/
def Runtime.total (s : Runtime) : Counter → ℕ
  | .published i => s.countedAt i
  | .received j => s.taken.count j

/-- The counters in the order in which `status_json` loads them. -/
def counters (i j : ℕ) : List NodeEntry → List Counter
  | [] => []
  | entry :: rest =>
    (List.range entry.publishers.length).map (fun k => .published (i + k)) ++
      (List.range entry.subscriptions.length).map (fun k => .received (j + k)) ++
      counters (i + entry.publishers.length) (j + entry.subscriptions.length) rest

/-- The loads of one call, with whatever the other threads do before each of them and behind the last. -/
inductive StatusRead (entries : List NodeEntry) : Runtime → List Counter → List (BitVec 64) → Runtime → Prop
  | done {s s' : Runtime} {as : List RunAction} (h : (runSystem entries).Run s as s') : StatusRead entries s [] [] s'
  | load {s t s' : Runtime} {as : List RunAction} {c : Counter} {cs : List Counter} {vs : List (BitVec 64)}
      (h : (runSystem entries).Run s as t) (hrest : StatusRead entries t cs vs s') :
      StatusRead entries s (c :: cs) (t.counter c :: vs) s'

/-- What the loop over the nodes shows, with the numbers it has loaded. -/
def statusNodes : List NodeEntry → List (BitVec 64) → List StatusNode
  | [], _ => []
  | entry :: rest, vs =>
    { fqName := entry.node.fqName
      publishers := entry.publishers.zipWith (fun pub v => ⟨pub.topic, pub.type, v⟩) vs
      subscriptions := entry.subscriptions.zipWith (fun sub v => ⟨sub.topic, sub.type, v⟩)
        (vs.drop entry.publishers.length) } ::
    statusNodes rest (vs.drop (entry.publishers.length + entry.subscriptions.length))

/-- `GraphExecutor.status`, from the numbers loaded. -/
def status (toStr : List UInt8 → Option Py.PyStr) (float : List UInt8 → Option Value) (entries : List NodeEntry)
    (vs : List (BitVec 64)) : Option Value :=
  Py.parseDocument toStr float (statusJson (statusNodes entries vs))

/-- The numbers of a status, in its order. -/
def numbers (nodes : List StatusNode) : List (BitVec 64) :=
  nodes.flatMap fun n => n.publishers.map StatusEntry.count ++ n.subscriptions.map StatusEntry.count

section Reading
variable {entries : List NodeEntry} {s s' : Runtime} {cs : List Counter} {vs : List (BitVec 64)}

theorem counters_length (i j : ℕ) (entries : List NodeEntry) : (counters i j entries).length =
    (entries.flatMap NodeEntry.publishers).length + (entries.flatMap NodeEntry.subscriptions).length := by
  induction entries generalizing i j with
  | nil => rfl
  | cons entry rest ih =>
    simp only [counters, List.length_append, List.length_map, List.length_range, List.flatMap_cons, ih]
    omega

theorem counter_eq (h : (runSystem entries).Reachable s) (c : Counter) :
    s.counter c = BitVec.ofNat 64 (s.total c) := by
  have hsound := Runtime.reachable_sound h
  cases c with
  | published i => exact (hsound.publishedAt_eq i).1
  | received j => exact hsound.received j

/-- What is counted only grows, so a number that was loaded in between lies in between. -/
theorem StatusRead.between (hread : StatusRead entries s cs vs s') (h : (runSystem entries).Reachable s) :
    (∃ as, (runSystem entries).Run s as s') ∧
      List.Forall₂ (fun c v => ∃ n, v = BitVec.ofNat 64 n ∧ s.total c ≤ n ∧ n ≤ s'.total c) cs vs := by
  have hmono : ∀ {s s' : Runtime} {as : List RunAction}, (runSystem entries).Run s as s' →
      ∀ c, s.total c ≤ s'.total c := by
    intro s s' as hrun c
    cases c with
    | published i => exact (Runtime.run_monotone hrun).1 i
    | received j => exact (Runtime.run_monotone hrun).2 j
  induction hread with
  | done hrun => exact ⟨⟨_, hrun⟩, .nil⟩
  | @load s t s' as c cs vs hload _ ih =>
    obtain ⟨⟨bs, hrun⟩, hrest⟩ := ih (hload.reachable h)
    refine ⟨⟨as ++ bs, hload.append hrun⟩,
      .cons ⟨t.total c, counter_eq (hload.reachable h) c, hmono hload c, hmono hrun c⟩ (hrest.imp ?_)⟩
    rintro c' v ⟨n, hv, hle, hn⟩
    refine ⟨n, hv, ?_, hn⟩
    calc
      s.total c' ≤ t.total c' := hmono hload c'
      _ ≤ n := hle

theorem map_count_zipWith {α : Type} (topic type : α → List UInt8) (l : List α) (vs : List (BitVec 64)) :
    (l.zipWith (fun a v => (⟨topic a, type a, v⟩ : StatusEntry)) vs).map StatusEntry.count = vs.take l.length := by
  induction l generalizing vs with
  | nil => rfl
  | cons a l ih =>
    cases vs with
    | nil => rfl
    | cons v vs => simp [ih]

/-- A status shows what was loaded, each number at its place. -/
theorem statusNodes_numbers (hlen : vs.length =
    (entries.flatMap NodeEntry.publishers).length + (entries.flatMap NodeEntry.subscriptions).length) :
    numbers (statusNodes entries vs) = vs := by
  induction entries generalizing vs with
  | nil =>
    obtain rfl : vs = [] := List.length_eq_zero_iff.mp hlen
    rfl
  | cons entry rest ih =>
    simp only [List.flatMap_cons, List.length_append] at hlen
    have hrest : numbers (statusNodes rest (vs.drop (entry.publishers.length + entry.subscriptions.length))) =
        vs.drop (entry.publishers.length + entry.subscriptions.length) := by
      apply ih
      rw [List.length_drop]
      omega
    unfold numbers at hrest ⊢
    rw [statusNodes, List.flatMap_cons, hrest, map_count_zipWith, map_count_zipWith, List.append_assoc,
      ← List.drop_drop, List.take_append_drop, List.take_append_drop]

/-- What a number says about the time between `s` and `s'`: writes, but for one that is under way, and samples. -/
def Counter.Shows (s s' : Runtime) : Counter → ℕ → Prop
  | .published i, v => s.writes i ≤ v + 1 ∧ v ≤ s'.writes i
  | .received j, v => s.taken.count j ≤ v ∧ v ≤ s'.taken.count j

/-- The status that Python gets while the topology runs: it arrives when the strings of the topology are UTF-8,
and each number in it is, modulo `2^64`, what was counted at some time during the call: for a publisher it is off
by what was written during the call and by one write under way. -/
theorem python_status (h : (runSystem entries).Reachable s) (hread : StatusRead entries s (counters 0 0 entries) vs s')
    {toStr : List UInt8 → Option Py.PyStr} (hstr : Py.StrictUtf8 toStr) (float : List UInt8 → Option Value)
    (doc : Value) :
    (status toStr float entries vs = some doc ↔
      (∀ n ∈ statusNodes entries vs, n.Readable) ∧ doc = statusValue (statusNodes entries vs)) ∧
    numbers (statusNodes entries vs) = vs ∧
    List.Forall₂ (fun c v => ∃ n, v = BitVec.ofNat 64 n ∧ c.Shows s s' n) (counters 0 0 entries) vs := by
  obtain ⟨⟨as, hrun⟩, hbetween⟩ := hread.between h
  have hsound := Runtime.reachable_sound h
  have hsound' := Runtime.reachable_sound (hrun.reachable h)
  refine ⟨?_, statusNodes_numbers ?_, hbetween.imp ?_⟩
  · rw [status, Py.parseDocument_eq_some_iff hstr (reads_statusJson _), utf8_statusJson]
  · rw [← hbetween.length_eq, counters_length]
  · rintro c v ⟨n, hv, hle, hn⟩
    refine ⟨n, hv, ?_⟩
    cases c with
    | published i =>
      constructor
      · calc
          s.writes i ≤ s.countedAt i + 1 := (hsound.countedAt_le i).2
          _ ≤ n + 1 := Nat.succ_le_succ hle
      · calc
          n ≤ s'.countedAt i := hn
          _ ≤ s'.writes i := (hsound'.countedAt_le i).1
    | received j => exact ⟨hle, hn⟩

theorem python_status_clock : ∃ p r, p ≤ 1 ∧
    status (fun raw => (Py.decodeUtf8 raw).toOption) (fun _ => none) [Runtime.clockEntry] [BitVec.ofNat 64 p, r] =
      some (statusValue (statusNodes [Runtime.clockEntry] [BitVec.ofNat 64 p, r])) := by
  obtain ⟨s, hs, -, hwrites, -⟩ := Runtime.clock_ticking
  have hread : StatusRead [Runtime.clockEntry] s (counters 0 0 [Runtime.clockEntry])
      [s.counter (.published 0), s.counter (.received 0)] s := .load .nil (.load .nil (.done .nil))
  obtain ⟨harrives, -, hshows⟩ := python_status hs hread Py.decodeUtf8_strict (fun _ => none)
    (statusValue (statusNodes [Runtime.clockEntry] [s.counter (.published 0), s.counter (.received 0)]))
  have hname : Ascii (literal "/clock") := by decide
  have hentry : Utf8 (literal "/ticks") ∧ Utf8 (literal "T") := ⟨.of_ascii (by decide), .of_ascii (by decide)⟩
  have hnode : ∀ n ∈ statusNodes [Runtime.clockEntry] [s.counter (.published 0), s.counter (.received 0)],
      n.Readable := by
    refine List.forall_mem_singleton.mpr ⟨.of_ascii hname, ?_, ?_⟩
    · exact List.forall_mem_singleton.mpr hentry
    · exact List.forall_mem_singleton.mpr hentry
  have hstatus := harrives.mpr ⟨hnode, rfl⟩
  cases hshows with
  | cons hfirst _ =>
    obtain ⟨p, hp, -, hle⟩ := hfirst
    rw [hp] at hstatus
    exact ⟨p, _, hle.trans hwrites.le, hstatus⟩

end Reading

end Rcllite.Topology
