import Rcllite.Lib.Transition
import Rcllite.TopologyMeaning

/-! A `GraphExecutor` at work. Each periodic publisher writes in a thread of its own until the destructor clears
`running`; the constructor writes the others, and the subscriptions are counted wherever the executor spins. -/
namespace Rcllite.Topology
open Transition
open Utf8 (literal)

/-- Where the writing of a publisher stands. -/
inductive Turn where
  | unstarted
  | test       -- `while (running.load())`
  | write
  | count      -- the write has succeeded, `published` does not know yet
  | sleep
  | done
deriving DecidableEq, Repr

/-- A publisher with its counter, a `std::atomic<uint64_t>`. -/
structure Writing where
  pub : RawPublisher
  turn : Turn
  published : BitVec 64

namespace Writing

def periodic (w : Writing) : Bool := w.pub.rateHz.positive

/-- Behind a write: a thread goes on after it has slept. -/
def after (w : Writing) : Turn := if w.periodic then .sleep else .done

/-- The next step of the writing, and whether it put the payload on the wire. -/
def step (running ok : Bool) (w : Writing) : Option (Writing × Bool) :=
  match w.turn with
  | .unstarted | .done => none
  | .test => some ({ w with turn := if running then .write else .done }, false)
  | .write => if ok then some ({ w with turn := .count }, true) else some ({ w with turn := w.after }, false)
  | .count => some ({ w with turn := w.after, published := w.published + 1 }, false)
  | .sleep => some ({ w with turn := .test }, false)

/-- The constructor comes to the publisher. -/
def start (w : Writing) : Writing := { w with turn := if w.periodic then .test else .write }

/-- The constructor may go on to the next publisher. -/
def started (w : Writing) : Bool := w.turn != .unstarted && (w.periodic || w.turn == .done)

end Writing

inductive Phase where
  | starting (k : ℕ)   -- `start_publishing` is at publisher `k`
  | live
  | stopping           -- the destructor joins the threads
  | gone
deriving DecidableEq, Repr

structure Runtime where
  writers : List Writing              -- of all nodes, in their order
  received : List (BitVec 64)         -- of all subscriptions, in their order
  running : Bool
  phase : Phase
  wire : List (ℕ × List UInt8)        -- the payloads written, with their publishers
  taken : List ℕ                      -- the subscriptions that took a valid sample, sample by sample

namespace Runtime

def new (entries : List NodeEntry) : Runtime where
  writers := (entries.flatMap NodeEntry.publishers).map fun pub => ⟨pub, .unstarted, 0⟩
  received := (entries.flatMap NodeEntry.subscriptions).map fun _ => 0
  running := true
  phase := .starting 0
  wire := []
  taken := []

/-- Publisher `i` has put its payload on the wire this often. -/
def writes (s : Runtime) (i : ℕ) : ℕ := s.wire.countP fun x => x.1 = i

/-- `published` of publisher `i`. -/
def publishedAt (s : Runtime) (i : ℕ) : BitVec 64 := (s.writers[i]?.map Writing.published).getD 0

/-- `received` of subscription `j`. -/
def receivedAt (s : Runtime) (j : ℕ) : BitVec 64 := s.received[j]?.getD 0

def turn (s : Runtime) (i : ℕ) (w : Writing) (wrote : Bool) : Runtime :=
  { s with
    writers := s.writers.set i w
    wire := if wrote then s.wire ++ [(i, w.pub.payload)] else s.wire }

/-- `RawSubscription::dispatch`, for one sample. -/
def take (s : Runtime) (j : ℕ) (valid : Bool) : Runtime :=
  if valid then { s with received := s.received.modify j (· + 1), taken := s.taken ++ [j] } else s

end Runtime

inductive RunAction where
  | start
  | proceed
  | turn (i : ℕ) (ok : Bool)
  | take (j : ℕ) (valid : Bool)
  | destroy
  | join

inductive RunStep : Runtime → RunAction → Runtime → Prop
  | start {s : Runtime} {k : ℕ} {w : Writing} (hphase : s.phase = .starting k) (hw : s.writers[k]? = some w)
      (hturn : w.turn = .unstarted) : RunStep s .start (s.turn k w.start false)
  | proceed {s : Runtime} {k : ℕ} {w : Writing} (hphase : s.phase = .starting k) (hw : s.writers[k]? = some w)
      (hturn : w.started = true) : RunStep s .proceed { s with phase := .starting (k + 1) }
  | constructed {s : Runtime} (hphase : s.phase = .starting s.writers.length) :
      RunStep s .proceed { s with phase := .live }
  | turn {s : Runtime} (i : ℕ) (ok : Bool) {w w' : Writing} {wrote : Bool} (hw : s.writers[i]? = some w)
      (hstep : w.step s.running ok = some (w', wrote)) : RunStep s (.turn i ok) (s.turn i w' wrote)
  | take {s : Runtime} (j : ℕ) (valid : Bool) (hphase : s.phase = .live) (hj : j < s.received.length) :
      RunStep s (.take j valid) (s.take j valid)
  | destroy {s : Runtime} (hphase : s.phase = .live) :
      RunStep s .destroy { s with running := false, phase := .stopping }
  | join {s : Runtime} (hphase : s.phase = .stopping) (hdone : ∀ w ∈ s.writers, w.turn = .done) :
      RunStep s .join { s with phase := .gone }

def runSystem (entries : List NodeEntry) : System Runtime RunAction where
  init s := s = .new entries
  step := RunStep

namespace Writing

/-- A write that is not counted yet. -/
def pending (w : Writing) : ℕ := if w.turn = .count then 1 else 0

/-- The writes that may still come once `running` is cleared. -/
def budget (w : Writing) : ℕ := if w.turn = .write then 1 else 0

/-- The steps that may still come once `running` is cleared. -/
def fuel (w : Writing) : ℕ :=
  match w.turn with
  | .unstarted | .done => 0
  | .test => 1
  | .sleep => 2
  | .count => 3
  | .write => 4

/-- The writes that are ahead of a publisher that writes once. -/
def ahead (w : Writing) : ℕ := if w.turn = .unstarted ∨ w.turn = .write then 1 else 0

variable {running ok wrote : Bool} {w w' : Writing}

theorem step_cases (h : w.step running ok = some (w', wrote)) :
    (w.turn = .test ∧ w' = { w with turn := if running then .write else .done } ∧ wrote = false) ∨
    (w.turn = .write ∧ w' = { w with turn := .count } ∧ wrote = true) ∨
    (w.turn = .write ∧ w' = { w with turn := w.after } ∧ wrote = false) ∨
    (w.turn = .count ∧ w' = { w with turn := w.after, published := w.published + 1 } ∧ wrote = false) ∨
    (w.turn = .sleep ∧ w' = { w with turn := .test } ∧ wrote = false) := by
  unfold step at h
  cases hturn : w.turn with
  | unstarted => simp [hturn] at h
  | done => simp [hturn] at h
  | write => cases ok <;> simp_all
  | test => simp_all
  | count => simp_all
  | sleep => simp_all

theorem after_cases (w : Writing) : (w.periodic = true ∧ w.after = .sleep) ∨ (w.periodic = false ∧ w.after = .done) := by
  unfold after
  cases w.periodic <;> simp

theorem step_pub (h : w.step running ok = some (w', wrote)) : w'.pub = w.pub := by
  rcases step_cases h with ⟨-, rfl, -⟩ | ⟨-, rfl, -⟩ | ⟨-, rfl, -⟩ | ⟨-, rfl, -⟩ | ⟨-, rfl, -⟩ <;> rfl

/-- What is written is counted, or about to be. -/
theorem step_counted (h : w.step running ok = some (w', wrote)) : ∃ raised : ℕ,
    w'.published = w.published + BitVec.ofNat 64 raised ∧ w'.pending + raised = w.pending + wrote.toNat := by
  rcases step_cases h with ⟨ht, rfl, rfl⟩ | ⟨ht, rfl, rfl⟩ | ⟨ht, rfl, rfl⟩ | ⟨ht, rfl, rfl⟩ | ⟨ht, rfl, rfl⟩
  · exact ⟨0, (BitVec.add_zero _).symm, by cases running <;> simp [pending, ht]⟩
  · exact ⟨0, (BitVec.add_zero _).symm, by simp [pending, ht]⟩
  · exact ⟨0, (BitVec.add_zero _).symm, by rcases w.after_cases with ⟨-, ha⟩ | ⟨-, ha⟩ <;> simp [pending, ht, ha]⟩
  · exact ⟨1, rfl, by rcases w.after_cases with ⟨-, ha⟩ | ⟨-, ha⟩ <;> simp [pending, ht, ha]⟩
  · exact ⟨0, (BitVec.add_zero _).symm, by simp [pending, ht]⟩

theorem start_pending (h : w.turn = .unstarted) : w.start.pending = w.pending := by
  cases hp : w.periodic <;> simp [start, pending, h, hp]

/-- Once `running` is cleared a thread comes to its end. -/
theorem step_stopping (h : w.step false ok = some (w', wrote)) :
    wrote.toNat + w'.budget ≤ w.budget ∧ w'.fuel < w.fuel := by
  rcases step_cases h with ⟨ht, rfl, rfl⟩ | ⟨ht, rfl, rfl⟩ | ⟨ht, rfl, rfl⟩ | ⟨ht, rfl, rfl⟩ | ⟨ht, rfl, rfl⟩
  · simp [budget, fuel, ht]
  · simp [budget, fuel, ht]
  · rcases w.after_cases with ⟨-, ha⟩ | ⟨-, ha⟩ <;> simp [budget, fuel, ht, ha]
  · rcases w.after_cases with ⟨-, ha⟩ | ⟨-, ha⟩ <;> simp [budget, fuel, ht, ha]
  · simp [budget, fuel, ht]

/-- A publisher that is not periodic goes through its turns once. -/
def Single (w : Writing) : Prop := w.periodic = false → w.turn ≠ .test ∧ w.turn ≠ .sleep

theorem step_single (h : w.step running ok = some (w', wrote)) (hs : w.Single) :
    w'.Single ∧ (w.periodic = false → wrote.toNat + w'.ahead ≤ w.ahead) := by
  have hperiodic : w'.periodic = w.periodic := by rw [periodic, step_pub h, periodic]
  unfold Single
  rw [hperiodic]
  rcases step_cases h with ⟨ht, rfl, rfl⟩ | ⟨ht, rfl, rfl⟩ | ⟨ht, rfl, rfl⟩ | ⟨ht, rfl, rfl⟩ | ⟨ht, rfl, rfl⟩
  · exact ⟨fun hp => absurd ht (hs hp).1, fun hp => absurd ht (hs hp).1⟩
  · simp [ahead, ht]
  · rcases w.after_cases with ⟨hp, ha⟩ | ⟨hp, ha⟩ <;> simp [ahead, ht, ha, hp]
  · rcases w.after_cases with ⟨hp, ha⟩ | ⟨hp, ha⟩ <;> simp [ahead, ht, ha, hp]
  · exact ⟨fun hp => absurd ht (hs hp).2, fun hp => absurd ht (hs hp).2⟩

theorem step_started (h : w.step running ok = some (w', wrote)) (hs : w.started = true) : w'.started = true := by
  have hperiodic : w'.periodic = w.periodic := by rw [periodic, step_pub h, periodic]
  unfold started at hs ⊢
  rw [hperiodic]
  rcases step_cases h with ⟨ht, rfl, rfl⟩ | ⟨ht, rfl, rfl⟩ | ⟨ht, rfl, rfl⟩ | ⟨ht, rfl, rfl⟩ | ⟨ht, rfl, rfl⟩
  · cases running <;> simp_all
  · simp_all
  · rcases w.after_cases with ⟨hp, ha⟩ | ⟨hp, ha⟩ <;> simp_all
  · rcases w.after_cases with ⟨hp, ha⟩ | ⟨hp, ha⟩ <;> simp_all
  · simp_all

/-- A thread that has not ended has a step to take. -/
theorem exists_step (w : Writing) (running ok : Bool) (hs : w.turn ≠ .unstarted) (hd : w.turn ≠ .done) :
    ∃ w' wrote, w.step running ok = some (w', wrote) := by
  unfold step
  cases hturn : w.turn with
  | unstarted => exact absurd hturn hs
  | done => exact absurd hturn hd
  | write => cases ok <;> exact ⟨_, _, rfl⟩
  | test => exact ⟨_, _, rfl⟩
  | count => exact ⟨_, _, rfl⟩
  | sleep => exact ⟨_, _, rfl⟩

end Writing

namespace Runtime

/-- The constructor has come past publisher `i`. -/
def Begun (s : Runtime) (i : ℕ) : Prop := ∀ k, s.phase = .starting k → i < k

/-- What is known of publisher `i`. -/
structure WriterSound (s : Runtime) (i : ℕ) (w : Writing) : Prop where
  written : w.pending ≤ s.writes i
  counted : w.published = BitVec.ofNat 64 (s.writes i - w.pending)
  single : w.Single
  once : w.periodic = false → s.writes i + w.ahead ≤ 1
  begun : s.Begun i → w.started = true

structure Sound (pubs : List RawPublisher) (subs : ℕ) (s : Runtime) : Prop where
  samePubs : s.writers.map Writing.pub = pubs
  sameSubs : s.received.length = subs
  writer : ∀ i w, s.writers[i]? = some w → s.WriterSound i w
  payload : ∀ x ∈ s.wire, pubs[x.1]?.map RawPublisher.payload = some x.2
  received : ∀ j, s.receivedAt j = BitVec.ofNat 64 (s.taken.count j)
  starting : ∀ k, s.phase = .starting k → k ≤ s.writers.length
  stopped : s.running = false ↔ s.phase = .stopping ∨ s.phase = .gone
  ended : s.phase = .gone → ∀ w ∈ s.writers, w.turn = .done

section Turns
variable {s : Runtime} {i : ℕ} {w w' : Writing} {wrote : Bool}

theorem writes_turn (s : Runtime) (i : ℕ) (w : Writing) (wrote : Bool) (i' : ℕ) :
    (s.turn i w wrote).writes i' = s.writes i' + if i' = i then wrote.toNat else 0 := by
  unfold writes turn
  cases wrote with
  | false => simp
  | true => simp [eq_comm]

theorem getElem?_turn (hw : s.writers[i]? = some w) (w' : Writing) (wrote : Bool) (i' : ℕ) :
    (s.turn i w' wrote).writers[i']? = if i' = i then some w' else s.writers[i']? := by
  have hi := (List.getElem?_eq_some_iff.mp hw).1
  unfold turn
  dsimp only
  rw [List.getElem?_set]
  by_cases h : i = i'
  · rw [if_pos h, if_pos hi, if_pos h.symm]
  · rw [if_neg h, if_neg (fun h' => h h'.symm)]

theorem pubs_turn (hw : s.writers[i]? = some w) (hpub : w'.pub = w.pub) (wrote : Bool) :
    (s.turn i w' wrote).writers.map Writing.pub = s.writers.map Writing.pub := by
  apply List.ext_getElem?
  intro j
  rw [List.getElem?_map, List.getElem?_map, getElem?_turn hw]
  split_ifs with hj
  · rw [hj, hw, Option.map_some, Option.map_some, hpub]
  · rfl

/-- A step of one publisher keeps what is known of the others. -/
theorem Sound.turn {pubs : List RawPublisher} {subs : ℕ} (h : s.Sound pubs subs) (hw : s.writers[i]? = some w)
    (hpub : w'.pub = w.pub) (halive : s.phase ≠ .gone) (hsound : (s.turn i w' wrote).WriterSound i w') :
    (s.turn i w' wrote).Sound pubs subs := by
  refine ⟨(pubs_turn hw hpub wrote).trans h.samePubs, h.sameSubs, ?_, ?_, h.received, ?_, h.stopped,
    fun hgone => absurd hgone halive⟩
  · intro i' w₁ hw₁
    rw [getElem?_turn hw] at hw₁
    split_ifs at hw₁ with heq
    · cases hw₁
      exact heq ▸ hsound
    · obtain ⟨hwritten, hcounted, hsingle, honce, hbegun⟩ := h.writer i' w₁ hw₁
      have hwrites : (s.turn i w' wrote).writes i' = s.writes i' := by rw [writes_turn, if_neg heq, Nat.add_zero]
      refine ⟨?_, ?_, hsingle, hwrites ▸ honce, hbegun⟩
      · rwa [hwrites]
      · rwa [hwrites]
  · intro x hx
    unfold Runtime.turn at hx
    dsimp only at hx
    split_ifs at hx with hwrote
    · rcases List.mem_append.mp hx with hx | hx
      · exact h.payload x hx
      · obtain rfl := List.mem_singleton.mp hx
        rw [← h.samePubs, List.getElem?_map, hw, hpub]
        rfl
    · exact h.payload x hx
  · intro k hk
    unfold Runtime.turn
    rw [List.length_set]
    exact h.starting k hk

end Turns

variable {pubs : List RawPublisher} {subs : ℕ} {s s' : Runtime} {a : RunAction}

theorem Sound.start (h : s.Sound pubs subs) {k : ℕ} {w : Writing} (hphase : s.phase = .starting k)
    (hw : s.writers[k]? = some w) (hturn : w.turn = .unstarted) : (s.turn k w.start false).Sound pubs subs := by
  obtain ⟨hwritten, hcounted, hsingle, honce, -⟩ := h.writer k w hw
  have hwrites : (s.turn k w.start false).writes k = s.writes k := by rw [writes_turn, if_pos rfl]; rfl
  refine h.turn hw rfl (by rw [hphase]; exact nofun) ⟨?_, ?_, ?_, ?_, ?_⟩
  · rwa [hwrites, Writing.start_pending hturn]
  · rw [hwrites, Writing.start_pending hturn]
    exact hcounted
  · intro hp
    have hp : w.periodic = false := hp
    simp [Writing.start, hp]
  · intro hp
    have hp : w.periodic = false := hp
    have hbefore := honce hp
    rw [hwrites]
    simpa [Writing.start, Writing.ahead, hturn, hp] using hbefore
  · -- the constructor is still at this publisher
    intro hbegun
    exact absurd (hbegun k hphase) (Nat.lt_irrefl k)

theorem Sound.step_turn (h : s.Sound pubs subs) {i : ℕ} {ok wrote : Bool} {w w' : Writing}
    (hw : s.writers[i]? = some w) (hstep : w.step s.running ok = some (w', wrote)) :
    (s.turn i w' wrote).Sound pubs subs := by
  obtain ⟨hwritten, hcounted, hsingle, honce, hbegun⟩ := h.writer i w hw
  obtain ⟨raised, hraised, hpending⟩ := Writing.step_counted hstep
  obtain ⟨hsingle', honce'⟩ := Writing.step_single hstep hsingle
  have hperiodic : w'.periodic = w.periodic := by rw [Writing.periodic, Writing.step_pub hstep, Writing.periodic]
  have hwrites : (s.turn i w' wrote).writes i = s.writes i + wrote.toNat := by rw [writes_turn, if_pos rfl]
  refine h.turn hw (Writing.step_pub hstep) ?_ ⟨?_, ?_, hsingle', ?_, fun hb => Writing.step_started hstep (hbegun hb)⟩
  · intro hgone
    have hdone := h.ended hgone w (List.mem_of_getElem? hw)
    unfold Writing.step at hstep
    simp [hdone] at hstep
  · rw [hwrites]
    omega
  · have hcount : s.writes i + wrote.toNat - w'.pending = s.writes i - w.pending + raised := by omega
    rw [hwrites, hraised, hcounted, hcount, BitVec.ofNat_add]
  · intro hp
    rw [hperiodic] at hp
    have hbefore := honce hp
    have hless := honce' hp
    rw [hwrites]
    omega

/-- Only the phase changes. -/
theorem Sound.phase (h : s.Sound pubs subs) {running : Bool} {phase : Phase}
    (hbegun : ∀ i w, s.writers[i]? = some w → Begun { s with running, phase } i → s.Begun i ∨ w.started = true)
    (hstarting : ∀ k, phase = .starting k → k ≤ s.writers.length)
    (hstopped : running = false ↔ phase = .stopping ∨ phase = .gone)
    (hended : phase = .gone → ∀ w ∈ s.writers, w.turn = .done) : Sound pubs subs { s with running, phase } := by
  refine ⟨h.samePubs, h.sameSubs, ?_, h.payload, h.received, hstarting, hstopped, hended⟩
  intro i w hw
  obtain ⟨hwritten, hcounted, hsingle, honce, hstarted⟩ := h.writer i w hw
  exact ⟨hwritten, hcounted, hsingle, honce, fun hb => (hbegun i w hw hb).elim hstarted id⟩

theorem Sound.take (h : s.Sound pubs subs) {j : ℕ} (hj : j < s.received.length) (valid : Bool) :
    (s.take j valid).Sound pubs subs := by
  unfold Runtime.take
  split_ifs
  · refine ⟨h.samePubs, ?_, ?_, h.payload, ?_, h.starting, h.stopped, h.ended⟩
    · rw [List.length_modify]
      exact h.sameSubs
    · intro i w hw
      obtain ⟨hwritten, hcounted, hsingle, honce, hbegun⟩ := h.writer i w hw
      exact ⟨hwritten, hcounted, hsingle, honce, hbegun⟩
    · intro j'
      have hbefore := h.received j'
      rw [receivedAt] at hbefore
      rw [receivedAt, List.getElem?_modify, List.count_append, List.count_singleton, BitVec.ofNat_add, ← hbefore]
      by_cases hjj : j = j'
      · subst hjj
        simp [hj]
      · simp [hjj]
  · exact h

theorem sound_new (entries : List NodeEntry) :
    (new entries).Sound (entries.flatMap NodeEntry.publishers) (entries.flatMap NodeEntry.subscriptions).length := by
  have hwriter : ∀ (i : ℕ) (w : Writing), (new entries).writers[i]? = some w → w.turn = .unstarted ∧ w.published = 0 := by
    intro i w hw
    obtain ⟨pub, -, rfl⟩ := List.mem_map.mp (List.mem_of_getElem? hw)
    exact ⟨rfl, rfl⟩
  refine ⟨by simp [new, Function.comp_def], List.length_map _, ?_, nofun, ?_, ?_, by simp [new], nofun⟩
  · intro i w hw
    obtain ⟨hturn, hpublished⟩ := hwriter i w hw
    refine ⟨?_, ?_, fun _ => by simp [hturn], fun _ => ?_, fun hb => absurd (hb 0 rfl) (Nat.not_lt_zero i)⟩
    · rw [Writing.pending, hturn]
      exact Nat.zero_le _
    · rw [hpublished, Writing.pending, hturn]
      rfl
    · rw [Writing.ahead, hturn]
      exact Nat.le_refl 1
  · intro j
    rw [receivedAt, new, List.getElem?_map]
    cases (entries.flatMap NodeEntry.subscriptions)[j]? <;> rfl
  · intro k hk
    cases hk
    exact Nat.zero_le _

theorem Sound.step (h : s.Sound pubs subs) (hs : RunStep s a s') : s'.Sound pubs subs := by
  cases hs with
  | start hphase hw hturn => exact h.start hphase hw hturn
  | @proceed k w hphase hw hturn =>
    have hrunning : s.running ≠ false := fun hr => by simpa [hphase] using h.stopped.mp hr
    refine h.phase ?_ ?_ (iff_of_false hrunning (by simp)) nofun
    · -- the publisher that was at hand has started
      intro i w₁ hw₁ hbegun
      rcases Nat.lt_succ_iff_lt_or_eq.mp (hbegun (k + 1) rfl) with hlt | rfl
      · left
        intro k' hk'
        rw [hphase] at hk'
        cases hk'
        exact hlt
      · right
        rw [hw] at hw₁
        cases hw₁
        exact hturn
    · rintro k' ⟨⟩
      exact (List.getElem?_eq_some_iff.mp hw).1
  | constructed hphase =>
    have hrunning : s.running ≠ false := fun hr => by simpa [hphase] using h.stopped.mp hr
    refine h.phase ?_ nofun (iff_of_false hrunning (by simp)) nofun
    intro i w hw _
    left
    intro k hk
    rw [hphase] at hk
    cases hk
    exact (List.getElem?_eq_some_iff.mp hw).1
  | turn i ok hw hstep => exact h.step_turn hw hstep
  | take j valid hphase hj => exact h.take hj valid
  | destroy hphase =>
    refine h.phase ?_ nofun (iff_of_true rfl (.inl rfl)) nofun
    intro i w hw _
    left
    intro k hk
    rw [hphase] at hk
    cases hk
  | join hphase hdone =>
    have hrunning := h.stopped.mpr (.inl hphase)
    refine h.phase ?_ nofun (iff_of_true hrunning (.inr rfl)) (fun _ => hdone)
    intro i w hw _
    left
    intro k hk
    rw [hphase] at hk
    cases hk

theorem reachable_sound {entries : List NodeEntry} (h : (runSystem entries).Reachable s) :
    s.Sound (entries.flatMap NodeEntry.publishers) (entries.flatMap NodeEntry.subscriptions).length :=
  h.invariant _ (fun _ hs => hs ▸ sound_new entries) (fun _ _ _ _ hi hs => hi.step hs)

section Counters

def budgetAt (s : Runtime) (i : ℕ) : ℕ := (s.writers[i]?.map Writing.budget).getD 0

def pendingAt (s : Runtime) (i : ℕ) : ℕ := (s.writers[i]?.map Writing.pending).getD 0

/-- The writes that `published` knows of. -/
def countedAt (s : Runtime) (i : ℕ) : ℕ := s.writes i - s.pendingAt i

theorem countedAt_mono (hs : RunStep s a s') (i : ℕ) : s.countedAt i ≤ s'.countedAt i := by
  have hturn : ∀ {k : ℕ} {w w' : Writing} {wrote : Bool}, s.writers[k]? = some w →
      w'.pending ≤ w.pending + wrote.toNat → s.countedAt i ≤ (s.turn k w' wrote).countedAt i := by
    intro k w w' wrote hw hle
    rw [countedAt, countedAt, pendingAt, pendingAt, writes_turn, getElem?_turn hw]
    split_ifs with hi
    · rw [hi, hw, Option.map_some, Option.map_some, Option.getD_some, Option.getD_some]
      omega
    · exact Nat.le_refl _
  cases hs with
  | start hphase hw hunstarted => exact hturn hw (Writing.start_pending hunstarted).le
  | turn k ok hw hstep =>
    obtain ⟨raised, -, hpending⟩ := Writing.step_counted hstep
    exact hturn hw (by omega)
  | take j valid hphase hj =>
    unfold Runtime.take
    split_ifs <;> exact Nat.le_refl _
  | _ => exact Nat.le_refl _

theorem taken_mono (hs : RunStep s a s') (j : ℕ) : s.taken.count j ≤ s'.taken.count j := by
  cases hs with
  | take k valid hphase hk =>
    unfold Runtime.take
    split_ifs
    · exact (List.sublist_append_left _ _).count_le j
    · exact Nat.le_refl _
  | _ => exact Nat.le_refl _

/-- The destructor has begun: it stays so, and the writes that are left are used up. -/
theorem stopping_step (h : s.Sound pubs subs) (hrunning : s.running = false) (hs : RunStep s a s') (i : ℕ) :
    s'.running = false ∧ s'.writes i + s'.budgetAt i ≤ s.writes i + s.budgetAt i := by
  have hphase := h.stopped.mp hrunning
  cases hs with
  | start hstarting => simp [hstarting] at hphase
  | proceed hstarting => simp [hstarting] at hphase
  | constructed hstarting => simp [hstarting] at hphase
  | take j valid hlive => simp [hlive] at hphase
  | destroy hlive => simp [hlive] at hphase
  | join hstopping hdone => exact ⟨hrunning, Nat.le_refl _⟩
  | @turn k ok w w' wrote hw hstep =>
    refine ⟨hrunning, ?_⟩
    rw [hrunning] at hstep
    rw [writes_turn, budgetAt, budgetAt, getElem?_turn hw]
    split_ifs with hi
    · have hless := (Writing.step_stopping hstep).1
      rw [hi, hw, Option.map_some, Option.map_some, Option.getD_some, Option.getD_some]
      omega
    · exact Nat.le_refl _

/-- The steps that are left once the destructor has begun. -/
def fuel (s : Runtime) : ℕ := (s.writers.map Writing.fuel).sum + if s.phase = .stopping then 1 else 0

theorem sum_set {α : Type} (f : α → ℕ) {l : List α} {i : ℕ} {a : α} (h : l[i]? = some a) (b : α) :
    ((l.set i b).map f).sum + f a = (l.map f).sum + f b := by
  induction l generalizing i with
  | nil => simp at h
  | cons x l ih =>
    cases i with
    | zero =>
      obtain rfl : x = a := by simpa using h
      rw [List.set_cons_zero, List.map_cons, List.map_cons, List.sum_cons, List.sum_cons]
      omega
    | succ i =>
      have hrest : ((l.set i b).map f).sum + f a = (l.map f).sum + f b := ih (by simpa using h)
      rw [List.set_cons_succ, List.map_cons, List.map_cons, List.sum_cons, List.sum_cons]
      omega

theorem fuel_step (h : s.Sound pubs subs) (hrunning : s.running = false) (hs : RunStep s a s') :
    s'.fuel < s.fuel := by
  have hphase := h.stopped.mp hrunning
  cases hs with
  | start hstarting => simp [hstarting] at hphase
  | proceed hstarting => simp [hstarting] at hphase
  | constructed hstarting => simp [hstarting] at hphase
  | take j valid hlive => simp [hlive] at hphase
  | destroy hlive => simp [hlive] at hphase
  | join hstopping hdone => simp [fuel, hstopping]
  | @turn k ok w w' wrote hw hstep =>
    rw [hrunning] at hstep
    have hless := (Writing.step_stopping hstep).2
    have hsum := sum_set Writing.fuel hw w'
    change ((s.writers.set k w').map Writing.fuel).sum + _ < _
    unfold fuel
    have hsame : (s.turn k w' wrote).phase = s.phase := rfl
    rw [hsame]
    omega

theorem fuel_le (s : Runtime) : s.fuel ≤ 4 * s.writers.length + 1 := by
  have hone : ∀ w : Writing, w.fuel ≤ 4 := by
    intro w
    unfold Writing.fuel
    split <;> omega
  have hsum : (s.writers.map Writing.fuel).sum ≤ 4 * s.writers.length := by
    generalize s.writers = l
    induction l with
    | nil => exact Nat.le_refl _
    | cons w l ih =>
      have hw := hone w
      rw [List.map_cons, List.sum_cons, List.length_cons]
      omega
  unfold fuel
  split_ifs <;> omega

end Counters

section Results
variable {entries : List NodeEntry}

/-- The counter of a publisher holds the writes it knows of, and is behind by one at most. -/
theorem Sound.publishedAt_eq (h : s.Sound pubs subs) (i : ℕ) :
    s.publishedAt i = BitVec.ofNat 64 (s.countedAt i) ∧ s.writes i = s.countedAt i + s.pendingAt i := by
  rw [publishedAt, countedAt, pendingAt]
  cases hw : s.writers[i]? with
  | some w =>
    have hsound := h.writer i w hw
    exact ⟨hsound.counted, (Nat.sub_add_cancel hsound.written).symm⟩
  | none =>
    have hzero : s.writes i = 0 := by
      refine List.countP_eq_zero.mpr fun x hx hi => ?_
      have hpayload := h.payload x hx
      rw [of_decide_eq_true hi, ← h.samePubs, List.getElem?_map, hw] at hpayload
      cases hpayload
    rw [hzero]
    exact ⟨rfl, rfl⟩

theorem Sound.countedAt_le (h : s.Sound pubs subs) (i : ℕ) :
    s.countedAt i ≤ s.writes i ∧ s.writes i ≤ s.countedAt i + 1 := by
  have hpending : s.pendingAt i ≤ 1 := by
    unfold pendingAt
    cases s.writers[i]? with
    | none => exact Nat.zero_le _
    | some w =>
      change (if w.turn = .count then 1 else 0) ≤ 1
      split_ifs <;> omega
  have hwrites := (h.publishedAt_eq i).2
  omega

/-- Until it has joined all threads the destructor can go on, and afterwards nothing can. -/
theorem stopping_progress (h : s.Sound pubs subs) (hrunning : s.running = false) :
    (s.phase = .gone ∧ (∀ i, s.publishedAt i = BitVec.ofNat 64 (s.writes i)) ∧ ∀ a s', ¬ RunStep s a s') ∨
      (s.phase = .stopping ∧ ∃ a s', RunStep s a s') := by
  rcases h.stopped.mp hrunning with hphase | hphase
  · right
    refine ⟨hphase, ?_⟩
    by_cases hdone : ∀ w ∈ s.writers, w.turn = .done
    · exact ⟨.join, _, .join hphase hdone⟩
    · -- a thread that is joined and has not ended can go on
      obtain ⟨w, hmem, hturn⟩ := not_forall₂.mp hdone
      obtain ⟨i, hw⟩ := List.mem_iff_getElem?.mp hmem
      have hstarted := (h.writer i w hw).begun (fun k hk => by rw [hphase] at hk; cases hk)
      have hbegun : w.turn ≠ .unstarted := by
        unfold Writing.started at hstarted
        exact bne_iff_ne.mp (Bool.and_eq_true_iff.mp hstarted).1
      obtain ⟨w', wrote, hstep⟩ := w.exists_step s.running true hbegun hturn
      exact ⟨.turn i true, _, .turn i true hw hstep⟩
  · left
    have hdone := h.ended hphase
    refine ⟨hphase, fun i => ?_, fun a s' hs => ?_⟩
    · have hnone : s.pendingAt i = 0 := by
        unfold pendingAt
        cases hw : s.writers[i]? with
        | none => rfl
        | some w =>
          rw [Option.map_some, Option.getD_some, Writing.pending, hdone w (List.mem_of_getElem? hw)]
          rfl
      obtain ⟨hcounter, hwrites⟩ := h.publishedAt_eq i
      rw [hcounter, hwrites, hnone, Nat.add_zero]
    · have hless := fuel_step h hrunning hs
      have hzero : s.fuel = 0 := by
        have hall : ∀ n ∈ s.writers.map Writing.fuel, n = 0 := by
          intro n hn
          obtain ⟨w, hw, rfl⟩ := List.mem_map.mp hn
          rw [Writing.fuel, hdone w hw]
        rw [fuel, hphase, List.sum_eq_zero hall]
        rfl
      omega

theorem run_monotone {as : List RunAction} (h : (runSystem entries).Run s as s') :
    (∀ i, s.countedAt i ≤ s'.countedAt i) ∧ ∀ j, s.taken.count j ≤ s'.taken.count j := by
  induction h with
  | nil => exact ⟨fun _ => Nat.le_refl _, fun _ => Nat.le_refl _⟩
  | @cons s t s' a as hs _ ih =>
    constructor
    · intro i
      calc
        s.countedAt i ≤ t.countedAt i := countedAt_mono hs i
        _ ≤ s'.countedAt i := ih.1 i
    · intro j
      calc
        s.taken.count j ≤ t.taken.count j := taken_mono hs j
        _ ≤ s'.taken.count j := ih.2 j

theorem ofNat_le {m n : ℕ} (h : m ≤ n) (hn : n < 2^64) : BitVec.ofNat 64 m ≤ BitVec.ofNat 64 n := by
  rw [BitVec.le_def, BitVec.toNat_ofNat, BitVec.toNat_ofNat, Nat.mod_eq_of_lt (by omega), Nat.mod_eq_of_lt hn]
  exact h

/-- A counter does not fall before it wraps. -/
theorem counters_rise {as : List RunAction} (h : (runSystem entries).Reachable s)
    (hrun : (runSystem entries).Run s as s') :
    (∀ i, s'.writes i < 2^64 → s.publishedAt i ≤ s'.publishedAt i) ∧
      ∀ j, s'.taken.count j < 2^64 → s.receivedAt j ≤ s'.receivedAt j := by
  have hsound := reachable_sound h
  have hsound' := reachable_sound (hrun.reachable h)
  obtain ⟨hcounted, htaken⟩ := run_monotone hrun
  refine ⟨fun i hi => ?_, fun j hj => ?_⟩
  · rw [(hsound.publishedAt_eq i).1, (hsound'.publishedAt_eq i).1]
    exact ofNat_le (hcounted i) (lt_of_le_of_lt (hsound'.countedAt_le i).1 hi)
  · rw [hsound.received, hsound'.received]
    exact ofNat_le (htaken j) hj

/-- Once `running` is cleared, no run is long and no publisher writes twice. -/
theorem run_stopping {as : List RunAction} (h : (runSystem entries).Reachable s) (hrunning : s.running = false)
    (hrun : (runSystem entries).Run s as s') :
    as.length ≤ 4 * (entries.flatMap NodeEntry.publishers).length + 1 ∧ ∀ i, s'.writes i ≤ s.writes i + 1 := by
  constructor
  · have hbound := hrun.bounded (P := fun t => t.running = false) fuel
      (fun t a t' ht hr hs => ⟨(stopping_step (reachable_sound ht) hr hs 0).1, fuel_step (reachable_sound ht) hr hs⟩)
      h hrunning
    have hlength : s.writers.length = (entries.flatMap NodeEntry.publishers).length := by
      rw [← (reachable_sound h).samePubs, List.length_map]
    have hfuel := s.fuel_le
    rw [hlength] at hfuel
    omega
  · intro i
    have hkeeps := hrun.keeps (P := fun t => t.running = false ∧ t.writes i + t.budgetAt i ≤ s.writes i + s.budgetAt i)
      (fun t a t' ht ⟨hr, hle⟩ hs =>
        have hnext := stopping_step (reachable_sound ht) hr hs i
        ⟨hnext.1, hnext.2.trans hle⟩) h ⟨hrunning, Nat.le_refl _⟩
    have hbudget : s.budgetAt i ≤ 1 := by
      unfold budgetAt
      cases s.writers[i]? with
      | none => exact Nat.zero_le _
      | some w =>
        change (if w.turn = .write then 1 else 0) ≤ 1
        split_ifs <;> omega
    omega

/-- The counters while everything runs, and the end of the run. The counters wrap: modulo `2^64`, `published` is
the writes or one fewer and `received` is the samples, and neither falls before there are `2^64` of them. -/
theorem topology_run (h : (runSystem entries).Reachable s) :
    (∀ i, ∃ n, s.publishedAt i = BitVec.ofNat 64 n ∧ n ≤ s.writes i ∧ s.writes i ≤ n + 1) ∧
    (∀ i pub, (entries.flatMap NodeEntry.publishers)[i]? = some pub → pub.rateHz.positive = false → s.writes i ≤ 1) ∧
    (∀ x ∈ s.wire, (entries.flatMap NodeEntry.publishers)[x.1]?.map RawPublisher.payload = some x.2) ∧
    (∀ j, s.receivedAt j = BitVec.ofNat 64 (s.taken.count j)) ∧
    (∀ as s', (runSystem entries).Run s as s' →
      (∀ i, s'.writes i < 2^64 → s.publishedAt i ≤ s'.publishedAt i) ∧
        ∀ j, s'.taken.count j < 2^64 → s.receivedAt j ≤ s'.receivedAt j) ∧
    (s.running = false → ∀ as s', (runSystem entries).Run s as s' →
      as.length ≤ 4 * (entries.flatMap NodeEntry.publishers).length + 1 ∧ ∀ i, s'.writes i ≤ s.writes i + 1) ∧
    (s.running = false →
      (s.phase = .gone ∧ (∀ i, s.publishedAt i = BitVec.ofNat 64 (s.writes i)) ∧ ∀ a s', ¬ RunStep s a s') ∨
        (s.phase = .stopping ∧ ∃ a s', RunStep s a s')) := by
  have hsound := reachable_sound h
  refine ⟨fun i => ⟨s.countedAt i, (hsound.publishedAt_eq i).1, hsound.countedAt_le i⟩, fun i pub hpub honce => ?_,
    hsound.payload, hsound.received, fun as s' hrun => counters_rise h hrun,
    fun hrunning as s' hrun => run_stopping h hrunning hrun, stopping_progress hsound⟩
  rw [← hsound.samePubs, List.getElem?_map] at hpub
  obtain ⟨w, hw, rfl⟩ := Option.map_eq_some_iff.mp hpub
  have hle := (hsound.writer i w hw).once honce
  omega

/-- A clock that ticks ten times a second, and hears itself. -/
def clockEntry : NodeEntry :=
  ⟨literal "/", ⟨literal "/clock", none⟩, [⟨literal "/ticks", literal "T", defaultPayload, .integer 10, {}⟩],
    [⟨literal "/ticks", literal "T", {}⟩]⟩

/-- The clock while it ticks: the write has succeeded, the counter has not been raised. -/
theorem clock_ticking : ∃ s, (runSystem [clockEntry]).Reachable s ∧ s.phase = .live ∧ s.writes 0 = 1 ∧
    s.publishedAt 0 = 0 := by
  have hnew : (runSystem [clockEntry]).Reachable (new [clockEntry]) := .init rfl
  have hstart := hnew.step (RunStep.start rfl rfl rfl)
  have hproceed := hstart.step (RunStep.proceed rfl rfl rfl)
  have hlive := hproceed.step (RunStep.constructed rfl)
  have htest := hlive.step (RunStep.turn 0 true rfl rfl)
  exact ⟨_, htest.step (RunStep.turn 0 true rfl rfl), rfl, rfl, rfl⟩

theorem topology_run_clock : ∃ s, (runSystem [clockEntry]).Reachable s ∧ s.running = false ∧ s.writes 0 = 1 ∧
    ∀ as s', (runSystem [clockEntry]).Run s as s' → as.length ≤ 5 ∧ s'.writes 0 ≤ 2 := by
  obtain ⟨s, hs, hlive, hwrites, -⟩ := clock_ticking
  have hstopping := hs.step (RunStep.destroy hlive)
  obtain ⟨-, -, -, -, -, hstop, -⟩ := topology_run hstopping
  refine ⟨_, hstopping, rfl, hwrites, fun as s' hrun => ?_⟩
  obtain ⟨hlength, hless⟩ := hstop rfl as s' hrun
  refine ⟨hlength, ?_⟩
  calc
    s'.writes 0 ≤ s.writes 0 + 1 := hless 0
    _ = 2 := congrArg (· + 1) hwrites

end Results

end Runtime

end Rcllite.Topology
