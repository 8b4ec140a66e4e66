import Mathlib.Algebra.Order.Ring.Nat
import Rcllite.Lib.Transition

/-! `Executor::spin`, `spin_once` and `cancel`. A cancellation is recorded twice, in
`cancel_requested_` and in `cancel_guard_`; the state holds both, where the spinning
thread is, and how often `cancel()` has begun and `spin()` has returned. What
`wait_and_process` does to its nodes touches neither record and is left out. -/
namespace Rcllite
open Transition

/-- Who runs `wait_and_process`: `spin_some` is a sequence of `spin_once`. -/
inductive SpinCall where
  | spin
  | spinOnce
deriving DecidableEq

inductive SpinPc where
  | idle                                     -- no call under way
  | check                                    -- at the loop condition of `spin`
  | waiting (c : SpinCall)                   -- in `dds_waitset_wait`
  | handling (c : SpinCall) (ids : List ℕ)   -- over the triggered attachments
  | taken (c : SpinCall) (ids : List ℕ)      -- the cancel guard is taken, the flag is next
deriving DecidableEq

structure SpinState where
  cancelRequested : Bool
  cancelGuard : Bool
  inCancel : ℕ       -- `cancel()` calls between setting the flag and triggering the guard
  pc : SpinPc
  begun : ℕ          -- `cancel()` calls so far
  returned : ℕ       -- `spin()` calls that have returned
  waits : ℕ          -- waits of the running `spin()`
  completed : Bool   -- a `cancel()` completed with no call under way, and none was made since
  armed : Bool       -- the running `spin()` started like that

namespace SpinState

def new : SpinState := ⟨false, false, 0, .idle, 0, 0, 0, false, false⟩

/-- `spin()` up to its loop. -/
def startSpin (s : SpinState) : SpinState :=
  { s with cancelRequested := false, pc := .check, waits := 0, completed := false, armed := s.completed }

def startOnce (s : SpinState) : SpinState :=
  { s with pc := .waiting .spinOnce, completed := false, armed := false }

/-- The first step of `cancel()`. -/
def beginCancel (s : SpinState) : SpinState :=
  { s with cancelRequested := true, inCancel := s.inCancel + 1, begun := s.begun + 1 }

/-- `cancel_guard_.trigger()`. -/
def endCancel (s : SpinState) : SpinState :=
  { s with cancelGuard := true, inCancel := s.inCancel - 1, completed := s.completed || s.pc = .idle }

/-- `dds_waitset_wait` returns the number of triggered attachments and fills at most 64 slots; the loop
over that number reads whatever is behind them. -/
def wake (s : SpinState) (c : SpinCall) (triggered behind : List ℕ) : SpinState :=
  { s with pc := .handling c (triggered.take 64 ++ behind), waits := s.waits + 1 }

/-- One turn of the loop over the triggered attachments, up to the flag. -/
def handle (s : SpinState) (c : SpinCall) (id : ℕ) (ids : List ℕ) : SpinState :=
  if id = 1 then { s with cancelGuard := false, pc := .taken c ids } else { s with pc := .handling c ids }

/-- The end of `wait_and_process`. -/
def finish (s : SpinState) : SpinCall → SpinState
  | .spin => { s with pc := .check }
  | .spinOnce => { s with pc := .idle }

end SpinState

inductive SpinAction where
  | startSpin
  | startOnce
  | beginCancel
  | endCancel
  | loop
  | wake (triggered behind : List ℕ)
  | timeout
  | raise
  | handle
  | request
  | finish
  | ret

inductive SpinStep : SpinState → SpinAction → SpinState → Prop
  | startSpin {s : SpinState} (hp : s.pc = .idle) : SpinStep s .startSpin s.startSpin
  | startOnce {s : SpinState} (hp : s.pc = .idle) : SpinStep s .startOnce s.startOnce
  | beginCancel {s : SpinState} : SpinStep s .beginCancel s.beginCancel
  | endCancel {s : SpinState} (h : 0 < s.inCancel) : SpinStep s .endCancel s.endCancel
  | loop {s : SpinState} (hp : s.pc = .check) (hf : s.cancelRequested = false) :
      SpinStep s .loop { s with pc := .waiting .spin }
  -- the guard stays triggered until it is taken
  | wake {s : SpinState} (c : SpinCall) (triggered behind : List ℕ) (hp : s.pc = .waiting c)
      (hne : triggered ≠ []) (hg : 1 ∈ triggered ↔ s.cancelGuard = true)
      (hlen : behind.length = triggered.length - 64) :
      SpinStep s (.wake triggered behind) (s.wake c triggered behind)
  -- `spin` waits without a limit
  | timeout {s : SpinState} (hp : s.pc = .waiting .spinOnce) : SpinStep s .timeout { s with pc := .idle }
  -- `dds_waitset_wait` failed
  | raise {s : SpinState} (c : SpinCall) (hp : s.pc = .waiting c) : SpinStep s .raise { s with pc := .idle }
  | handle {s : SpinState} (c : SpinCall) (id : ℕ) (ids : List ℕ) (hp : s.pc = .handling c (id :: ids)) :
      SpinStep s .handle (s.handle c id ids)
  | request {s : SpinState} (c : SpinCall) (ids : List ℕ) (hp : s.pc = .taken c ids) :
      SpinStep s .request { s with cancelRequested := true, pc := .handling c ids }
  | finish {s : SpinState} (c : SpinCall) (hp : s.pc = .handling c []) : SpinStep s .finish (s.finish c)
  | ret {s : SpinState} (hp : s.pc = .check) (hf : s.cancelRequested = true) :
      SpinStep s .ret { s with pc := .idle, returned := s.returned + 1 }

/-- One executor: calls of `spin` and `spin_once` one after the other, `cancel` from any thread. -/
def spinSystem : System SpinState SpinAction where
  init s := s = .new
  step := SpinStep

/-- When as many `spin()` calls have returned as `cancel()` calls have begun, a `spin()` starts only with
the guard down and no `cancel()` on its way to it; and no wait has more than 64 attachments to report. -/
def Unspent : SpinState → SpinAction → Prop
  | s, .startSpin => s.returned < s.begun ∨ s.cancelGuard = false ∧ s.inCancel = 0
  | _, .wake triggered _ => triggered.length ≤ 64
  | _, _ => True

/-- The attachments that are still to be handled. -/
def SpinPc.ids : SpinPc → List ℕ
  | .handling _ ids | .taken _ ids => ids
  | _ => []

/-- The running call is a `spin()`. -/
def SpinPc.InSpin : SpinPc → Prop
  | .check | .waiting .spin | .handling .spin _ | .taken .spin _ => True
  | _ => False

/-- Nothing that was begun so far can still end the running `spin()`. -/
structure SpinState.Calm (s : SpinState) : Prop where
  flag : s.cancelRequested = false
  guard : s.cancelGuard = false
  inCancel : s.inCancel = 0
  ids : 1 ∉ s.pc.ids
  taken : ∀ c ids, s.pc ≠ .taken c ids

/-- A running `spin()` has a `cancel()` to spend, or nothing to end it. -/
structure SpinState.Accounted (s : SpinState) : Prop where
  le : s.returned ≤ s.begun
  running : s.pc.InSpin → s.returned < s.begun ∨ s.Calm

/-- Steps that neither begin a `cancel()` nor return from a `spin()`, inside the same call. -/
theorem SpinState.Accounted.stay {s s' : SpinState} (hi : s.Accounted) (hbegun : s'.begun = s.begun)
    (hreturned : s'.returned = s.returned) (hin : s'.pc.InSpin → s.pc.InSpin) (hcalm : s.Calm → s'.Calm) :
    s'.Accounted := by
  refine ⟨?_, fun hrun => ?_⟩
  · rw [hbegun, hreturned]
    exact hi.le
  · rw [hbegun, hreturned]
    exact (hi.running (hin hrun)).imp_right hcalm

/-- Inside the loop over the triggered attachments it only matters whose call it is. -/
theorem SpinPc.inSpin_handling (c : SpinCall) (ids ids' : List ℕ) :
    ((SpinPc.handling c ids).InSpin ↔ (SpinPc.handling c ids').InSpin) ∧
      ((SpinPc.taken c ids).InSpin ↔ (SpinPc.handling c ids').InSpin) := by
  cases c <;> exact ⟨Iff.rfl, Iff.rfl⟩

/-- Where a `spin()` that starts after a completed `cancel()` can be: its wait finds the guard triggered,
and the loop condition after the wait finds the flag set. -/
def PromptAt (waits : ℕ) (guard flag : Bool) : SpinPc → Prop
  | .check => waits = 0 ∧ guard = true ∨ waits = 1 ∧ flag = true
  | .waiting .spin => waits = 0 ∧ guard = true
  | .handling .spin ids => waits = 1 ∧ (1 ∈ ids ∨ flag = true)
  | .taken .spin _ => waits = 1
  | _ => True

/-- Setting either record does no harm. -/
theorem PromptAt.mono {waits : ℕ} {guard guard' flag flag' : Bool} {pc : SpinPc} (hg : guard = true → guard' = true)
    (hf : flag = true → flag' = true) (h : PromptAt waits guard flag pc) : PromptAt waits guard' flag' pc := by
  rcases pc with _ | _ | (_ | _) | ⟨_ | _, ids⟩ | ⟨_ | _, ids⟩
  · trivial
  · exact h.imp (And.imp_right hg) (And.imp_right hf)
  · exact h.imp_right hg
  · trivial
  · exact h.imp_right (Or.imp_right hf)
  · trivial
  · exact h
  · trivial

/-- The record of a completed `cancel()` is the guard itself. -/
structure SpinState.Fresh (s : SpinState) : Prop where
  completed : s.completed = true → s.cancelGuard = true ∧ s.pc = .idle
  prompt : s.armed = true → PromptAt s.waits s.cancelGuard s.cancelRequested s.pc

/-- With at most 64 attachments to report, the slots hold all of them and nothing else. -/
theorem slots_eq {triggered behind : List ℕ} (h64 : triggered.length ≤ 64)
    (hlen : behind.length = triggered.length - 64) : triggered.take 64 ++ behind = triggered := by
  have hbehind : behind = [] := List.eq_nil_of_length_eq_zero (by omega)
  rw [hbehind, List.append_nil, List.take_of_length_le h64]

section Steps
variable {s s' : SpinState} {a : SpinAction}

theorem step_accounted (hP : Unspent s a) (hi : s.Accounted) (hs : SpinStep s a s') : s'.Accounted := by
  cases hs with
  | startSpin hp =>
    refine ⟨hi.le, fun _ => ?_⟩
    rcases hP with hlt | ⟨hguard, hcancel⟩
    · exact Or.inl hlt
    · exact Or.inr ⟨rfl, hguard, hcancel, nofun, nofun⟩
  | startOnce hp => exact ⟨hi.le, nofun⟩
  | beginCancel => exact ⟨hi.le.trans (Nat.le_succ _), fun _ => Or.inl (Nat.lt_succ_of_le hi.le)⟩
  | endCancel h =>
    refine hi.stay rfl rfl id fun hcalm => ?_
    rw [hcalm.inCancel] at h
    exact absurd h (Nat.lt_irrefl 0)
  | loop hp hf =>
    refine hi.stay rfl rfl (fun _ => ?_) fun hcalm => ?_
    · rw [hp]
      trivial
    · exact ⟨hcalm.flag, hcalm.guard, hcalm.inCancel, nofun, nofun⟩
  | wake c triggered behind hp hne hg hlen =>
    refine hi.stay rfl rfl (fun hrun => ?_) fun hcalm => ?_
    · rw [hp]
      cases c with
      | spin => trivial
      | spinOnce => cases hrun
    · refine ⟨hcalm.flag, hcalm.guard, hcalm.inCancel, ?_, nofun⟩
      change 1 ∉ triggered.take 64 ++ behind
      rw [slots_eq hP hlen, hg, hcalm.guard]
      exact Bool.false_ne_true
  | timeout hp => exact ⟨hi.le, nofun⟩
  | raise c hp => exact ⟨hi.le, nofun⟩
  | handle c id ids hp =>
    have hsame := SpinPc.inSpin_handling c ids (id :: ids)
    rw [← hp] at hsame
    unfold SpinState.handle
    by_cases hid : id = 1
    · -- the guard was triggered, so a `cancel()` is still to be spent
      rw [if_pos hid]
      refine hi.stay rfl rfl hsame.2.mp fun hcalm => ?_
      have hids := hcalm.ids
      rw [hp, hid] at hids
      exact absurd List.mem_cons_self hids
    · rw [if_neg hid]
      refine hi.stay rfl rfl hsame.1.mp fun hcalm => ?_
      have hids := hcalm.ids
      rw [hp] at hids
      exact ⟨hcalm.flag, hcalm.guard, hcalm.inCancel, fun h => hids (List.mem_cons_of_mem _ h), nofun⟩
  | request c ids hp =>
    refine hi.stay rfl rfl (fun hrun => ?_) fun hcalm => absurd hp (hcalm.taken c ids)
    rw [hp]
    exact (SpinPc.inSpin_handling c ids ids).2.mpr hrun
  | finish c hp =>
    cases c with
    | spinOnce => exact ⟨hi.le, nofun⟩
    | spin =>
      refine hi.stay rfl rfl (fun _ => ?_) fun hcalm => ?_
      · rw [hp]
        trivial
      · exact ⟨hcalm.flag, hcalm.guard, hcalm.inCancel, nofun, nofun⟩
  | ret hp hf =>
    -- the flag is set: this return spends a `cancel()`
    refine ⟨?_, nofun⟩
    rcases hi.running (by rw [hp]; trivial) with hlt | hcalm
    · exact hlt
    · rw [hcalm.flag] at hf
      cases hf

theorem step_fresh (hP : Unspent s a) (hi : s.Fresh) (hs : SpinStep s a s') : s'.Fresh := by
  have hbusy : ∀ {P : Prop}, s.pc ≠ .idle → s.completed = true → P :=
    fun hpc hc => absurd (hi.completed hc).2 hpc
  have hprompt := hi.prompt
  cases hs with
  | startSpin hp => exact ⟨nofun, fun ha => Or.inl ⟨rfl, (hi.completed ha).1⟩⟩
  | startOnce hp => exact ⟨nofun, nofun⟩
  | beginCancel => exact ⟨hi.completed, fun ha => (hprompt ha).mono id fun _ => rfl⟩
  | endCancel h =>
    refine ⟨fun hc => ⟨rfl, ?_⟩, fun ha => (hprompt ha).mono (fun _ => rfl) id⟩
    rcases Bool.or_eq_true_iff.mp hc with hc | hpc
    · exact (hi.completed hc).2
    · exact of_decide_eq_true hpc
  | loop hp hf =>
    refine ⟨hbusy (by rw [hp]; nofun), fun ha => ?_⟩
    have h := hprompt ha
    rw [hp, hf] at h
    -- the flag is down at the loop condition, so this is the first turn
    rcases h with h | h
    · exact h
    · cases h.2
  | wake c triggered behind hp hne hg hlen =>
    rw [hp] at hprompt
    refine ⟨hbusy (by rw [hp]; nofun), fun ha => ?_⟩
    cases c with
    | spinOnce => trivial
    | spin =>
      -- the guard is up, so its attachment is among the triggered ones
      obtain ⟨hw, hguard⟩ := hprompt ha
      refine ⟨congrArg Nat.succ hw, Or.inl ?_⟩
      rw [slots_eq hP hlen]
      exact hg.mpr hguard
  | timeout hp => exact ⟨hbusy (by rw [hp]; nofun), fun _ => trivial⟩
  | raise c hp => exact ⟨hbusy (by rw [hp]; nofun), fun _ => trivial⟩
  | handle c id ids hp =>
    have hpc : s.pc ≠ .idle := by
      rw [hp]
      nofun
    rw [hp] at hprompt
    unfold SpinState.handle
    by_cases hid : id = 1
    · rw [if_pos hid]
      refine ⟨hbusy hpc, fun ha => ?_⟩
      cases c with
      | spinOnce => trivial
      | spin => exact (hprompt ha).1
    · rw [if_neg hid]
      refine ⟨hbusy hpc, fun ha => ?_⟩
      cases c with
      | spinOnce => trivial
      | spin =>
        obtain ⟨hw, hmem | hflag⟩ := hprompt ha
        · exact ⟨hw, Or.inl ((List.mem_cons.mp hmem).resolve_left (Ne.symm hid))⟩
        · exact ⟨hw, Or.inr hflag⟩
  | request c ids hp =>
    refine ⟨hbusy (by rw [hp]; nofun), fun ha => ?_⟩
    have h := hprompt ha
    rw [hp] at h
    cases c with
    | spinOnce => trivial
    | spin => exact ⟨h, Or.inr rfl⟩
  | finish c hp =>
    have hpc : s.pc ≠ .idle := by
      rw [hp]
      nofun
    rw [hp] at hprompt
    cases c with
    | spinOnce => exact ⟨hbusy hpc, fun _ => trivial⟩
    | spin =>
      refine ⟨hbusy hpc, fun ha => ?_⟩
      -- nothing is left to handle, so the guard was taken on the way
      obtain ⟨hw, hmem | hflag⟩ := hprompt ha
      · cases hmem
      · exact Or.inr ⟨hw, hflag⟩
  | ret hp hf => exact ⟨hbusy (by rw [hp]; nofun), fun _ => trivial⟩

end Steps

/-- In every run that meets the condition, no more `spin()` calls have returned than `cancel()` calls have
begun; and a `spin()` that starts after a completed `cancel()`, with no call in between, waits at most once:
the guard is up when it waits, and the flag is up when it is back at its loop condition. -/
theorem cancel_stops_one_spin {s : SpinState} (h : (spinSystem.restrict Unspent).Reachable s) :
    s.returned ≤ s.begun ∧
    (s.armed = true → s.pc.InSpin → s.waits ≤ 1 ∧ (s.pc = .waiting .spin → s.cancelGuard = true) ∧
      (s.pc = .check → s.waits = 1 → s.cancelRequested = true)) := by
  have hacc : s.Accounted := by
    refine h.invariant SpinState.Accounted ?_ ?_
    · rintro s rfl
      exact ⟨le_rfl, nofun⟩
    · intro s a s' _ hi hs
      exact step_accounted hs.1 hi hs.2
  have hfresh : s.Fresh := by
    refine h.invariant SpinState.Fresh ?_ ?_
    · rintro s rfl
      exact ⟨nofun, nofun⟩
    · intro s a s' _ hi hs
      exact step_fresh hs.1 hi hs.2
  refine ⟨hacc.le, fun ha hrun => ?_⟩
  have hprompt := hfresh.prompt ha
  -- where the `spin()` is decides what is known of it
  generalize s.pc = pc at hprompt hrun ⊢
  rcases pc with _ | _ | (_ | _) | ⟨_ | _, ids⟩ | ⟨_ | _, ids⟩
  · cases hrun
  · rcases hprompt with ⟨hw, -⟩ | ⟨hw, hflag⟩
    · exact ⟨by omega, nofun, fun _ h1 => by omega⟩
    · exact ⟨by omega, nofun, fun _ _ => hflag⟩
  · exact ⟨by rw [hprompt.1]; exact Nat.zero_le 1, fun _ => hprompt.2, nofun⟩
  · cases hrun
  · exact ⟨hprompt.1.le, nofun, nofun⟩
  · cases hrun
  · exact ⟨le_of_eq hprompt, nofun, nofun⟩
  · cases hrun

/-- A `cancel()` before the first `spin()`: one wait, and the flag is set again. -/
theorem cancel_stops_one_spin_once :
    ∃ s, (spinSystem.restrict Unspent).Reachable s ∧ s.pc = .check ∧ s.waits = 1 ∧ s.begun = 1 ∧
      s.cancelRequested = true := by
  have h₀ : (spinSystem.restrict Unspent).Reachable .new := .init rfl
  have h₁ := h₀.step_restrict .beginCancel trivial
  have h₂ := h₁.step_restrict (.endCancel (by decide)) trivial
  have h₃ := h₂.step_restrict (.startSpin rfl) (Or.inl (by decide))
  have h₄ := h₃.step_restrict (.loop rfl rfl) trivial
  have h₅ := h₄.step_restrict (.wake .spin [1] [] rfl nofun (by decide) rfl) (by decide : [1].length ≤ 64)
  have h₆ := h₅.step_restrict (.handle .spin 1 [] rfl) trivial
  have h₇ := h₆.step_restrict (.request .spin [] rfl) trivial
  have h₈ := h₇.step_restrict (.finish .spin rfl) trivial
  exact ⟨_, h₈, rfl, rfl, rfl, ((cancel_stops_one_spin h₈).2 rfl trivial).2.2 rfl rfl⟩

/-- One `cancel()` completes while the first `spin()` dispatches. That `spin()` returns for the flag and
leaves the guard up, which ends the second one. -/
theorem one_cancel_stops_two_spins :
    ∃ s, (spinSystem.restrict (fun _ a => ∀ t b, a = .wake t b → t.length ≤ 64)).Reachable s ∧
      s.begun = 1 ∧ s.inCancel = 0 ∧ s.returned = 2 ∧ ¬ s.returned ≤ s.begun := by
  let P : SpinState → SpinAction → Prop := fun _ a => ∀ t b, a = .wake t b → t.length ≤ 64
  have h₀ : (spinSystem.restrict P).Reachable .new := .init rfl
  have h₁ := h₀.step_restrict (.startSpin rfl) nofun
  have h₂ := h₁.step_restrict (.loop rfl rfl) nofun
  have h₃ := h₂.step_restrict (.wake .spin [3] [] rfl nofun (by decide) rfl) (by rintro t b ⟨⟩; decide)
  have h₄ := h₃.step_restrict .beginCancel nofun
  have h₅ := h₄.step_restrict (.endCancel (by decide)) nofun
  have h₆ := h₅.step_restrict (.handle .spin 3 [] rfl) nofun
  have h₇ := h₆.step_restrict (.finish .spin rfl) nofun
  have h₈ := h₇.step_restrict (.ret rfl rfl) nofun
  have h₉ := h₈.step_restrict (.startSpin rfl) nofun
  have h₁₀ := h₉.step_restrict (.loop rfl rfl) nofun
  have h₁₁ := h₁₀.step_restrict (.wake .spin [1] [] rfl nofun (by decide) rfl) (by rintro t b ⟨⟩; decide)
  have h₁₂ := h₁₁.step_restrict (.handle .spin 1 [] rfl) nofun
  have h₁₃ := h₁₂.step_restrict (.request .spin [] rfl) nofun
  have h₁₄ := h₁₃.step_restrict (.finish .spin rfl) nofun
  have h₁₅ := h₁₄.step_restrict (.ret rfl rfl) nofun
  exact ⟨_, h₁₅, rfl, rfl, rfl, by decide⟩

end Rcllite
