import Rcllite.Lib.Transition

/-! `Context::configure` and the first `Context::instance()`. The constructor reads the overrides in a
critical section of `g_cfg_mtx`; `g_ctx`, which `configure` tests, is assigned later and outside of it. -/
namespace Rcllite
open Transition

structure DdsConfigOverrides where
  domainId : Option (BitVec 32)
  configXml : List UInt8
deriving DecidableEq

structure Context where
  domainId : BitVec 32
  localhostOnly : Bool
  configXml : List UInt8
deriving DecidableEq

/-- What `env_domain_id` and `env_localhost_only` find. -/
structure ContextEnv where
  domainId : BitVec 32
  localhostOnly : Bool

/-- The constructor, given the overrides that its critical section reads. -/
def Context.new (env : ContextEnv) : Option DdsConfigOverrides → Context
  | none => ⟨env.domainId, env.localhostOnly, []⟩
  | some o => ⟨o.domainId.getD env.domainId, env.localhostOnly, o.configXml⟩

/-- Where the thread that runs the lambda of `call_once` is. -/
inductive OncePhase where
  | notCalled
  | constructing              -- before the critical section
  | constructed (c : Context) -- behind it, `g_ctx` not assigned yet
  | done
deriving DecidableEq

structure ContextState where
  cfg : Option DdsConfigOverrides    -- `g_cfg`
  ctx : Option Context               -- `g_ctx`
  phase : OncePhase
  returned : List DdsConfigOverrides -- the `configure` calls that have returned normally
  instances : List Context           -- what `instance()` calls have returned

namespace ContextState

def new : ContextState := ⟨none, none, .notCalled, [], []⟩

/-- The critical section of `configure`. -/
def configure (o : DdsConfigOverrides) (s : ContextState) : Except String ContextState :=
  if s.ctx.isSome then .error "Context::configure must run before the first node creates the context"
  else .ok { s with cfg := some o, returned := s.returned ++ [o] }

end ContextState

inductive ContextAction where
  | configure (o : DdsConfigOverrides)
  | call
  | construct
  | assign
  | getInstance
deriving DecidableEq

inductive ContextStep (env : ContextEnv) : ContextState → ContextAction → ContextState → Prop
  | configure {s s' : ContextState} (o : DdsConfigOverrides) (h : s.configure o = .ok s') :
      ContextStep env s (.configure o) s'
  | refuse {s : ContextState} {e : String} (o : DdsConfigOverrides) (h : s.configure o = .error e) :
      ContextStep env s (.configure o) s
  | call {s : ContextState} (h : s.phase = .notCalled) :
      ContextStep env s .call { s with phase := .constructing }
  | construct {s : ContextState} (h : s.phase = .constructing) :
      ContextStep env s .construct { s with phase := .constructed (Context.new env s.cfg) }
  | assign {s : ContextState} (c : Context) (h : s.phase = .constructed c) :
      ContextStep env s .assign { s with phase := .done, ctx := some c }
  -- every other caller of `call_once` waits for the first
  | getInstance {s : ContextState} (c : Context) (h : s.ctx = some c) :
      ContextStep env s .getInstance { s with instances := s.instances ++ [c] }

def contextSystem (env : ContextEnv) : System ContextState ContextAction where
  init s := s = .new
  step := ContextStep env

/-- The overrides are those of the context: the fragment, and the domain id when given. -/
def Context.Carries (c : Context) (o : DdsConfigOverrides) : Prop :=
  c.configXml = o.configXml ∧ ∀ d, o.domainId = some d → c.domainId = d

/-- Every `configure` that returned normally is followed by another one, or has its overrides in
every context that `instance()` returns. -/
def ContextState.NoneDropped (s : ContextState) : Prop :=
  ∀ before o after, s.returned = before ++ o :: after → after ≠ [] ∨ ∀ c ∈ s.instances, c.Carries o

/-- `configure` does not come between the constructor's critical section and the assignment of `g_ctx`. -/
def OutsideWindow (s : ContextState) : ContextAction → Prop
  | .configure _ => ∀ c, s.phase ≠ .constructed c
  | _ => True

instance (s : ContextState) (a : ContextAction) : Decidable (OutsideWindow s a) :=
  match a, hphase : s.phase with
  | .configure _, .constructed c => isFalse (fun h => h c hphase)
  | .configure _, .notCalled | .configure _, .constructing | .configure _, .done =>
    isTrue (fun c h => by rw [hphase] at h; cases h)
  | .call, _ | .construct, _ | .assign, _ | .getInstance, _ => isTrue trivial

/-- The overrides on record are those of the last `configure`; from the constructor's critical section on,
the context is the one they make. -/
structure ContextState.Settled (env : ContextEnv) (s : ContextState) : Prop where
  cfg : s.cfg = s.returned.getLast?
  constructed : ∀ c, s.phase = .constructed c → c = Context.new env s.returned.getLast?
  ctx : ∀ c, s.ctx = some c → c = Context.new env s.returned.getLast?
  instances : ∀ c ∈ s.instances, s.ctx = some c

theorem Context.new_carries (env : ContextEnv) (o : DdsConfigOverrides) : (Context.new env (some o)).Carries o := by
  refine ⟨rfl, fun d hd => ?_⟩
  rw [Context.new, hd]
  rfl

section Steps
variable {env : ContextEnv} {s s' : ContextState} {a : ContextAction}

/-- The two outcomes of `configure`. -/
theorem configure_cases {o : DdsConfigOverrides} (h : s.configure o = .ok s') :
    s.ctx = none ∧ s' = { s with cfg := some o, returned := s.returned ++ [o] } := by
  unfold ContextState.configure at h
  split_ifs at h with hctx
  cases h
  exact ⟨Option.not_isSome_iff_eq_none.mp hctx, rfl⟩

theorem step_settled (hwindow : OutsideWindow s a) (hi : s.Settled env) (hs : ContextStep env s a s') :
    s'.Settled env := by
  cases hs with
  | configure o h =>
    obtain ⟨hctx, rfl⟩ := configure_cases h
    refine ⟨List.getLast?_concat.symm, fun c hc => absurd hc (hwindow c), ?_, hi.instances⟩
    intro c hc
    rw [hctx] at hc
    cases hc
  | refuse o h => exact hi
  | call h =>
    refine ⟨hi.cfg, ?_, hi.ctx, hi.instances⟩
    intro c hc
    cases hc
  | construct h =>
    refine ⟨hi.cfg, ?_, hi.ctx, hi.instances⟩
    intro c hc
    cases hc
    rw [hi.cfg]
  | assign c h =>
    have hnew := hi.constructed c h
    refine ⟨hi.cfg, ?_, ?_, ?_⟩
    · intro c' hc'
      cases hc'
    · intro c' hc'
      cases hc'
      exact hnew
    · intro c' hc'
      have hctx := hi.ctx c' (hi.instances c' hc')
      rw [hnew, hctx]
  | getInstance c h =>
    refine ⟨hi.cfg, hi.constructed, hi.ctx, ?_⟩
    intro c' hc'
    rcases List.mem_append.mp hc' with hold | hnew
    · exact hi.instances c' hold
    · rw [List.mem_singleton.mp hnew]
      exact h

theorem reachable_settled (h : ((contextSystem env).restrict OutsideWindow).Reachable s) : s.Settled env := by
  refine h.invariant (ContextState.Settled env) ?_ ?_
  · rintro s rfl
    refine ⟨rfl, ?_, ?_, ?_⟩ <;> rintro c ⟨⟩
  · intro s a s' _ hi hs
    exact step_settled hs.1 hi hs.2

end Steps

/-- In every run in which no `configure` falls into the window, none that returned is dropped. -/
theorem no_configuration_dropped {env : ContextEnv} {s : ContextState}
    (h : ((contextSystem env).restrict OutsideWindow).Reachable s) : s.NoneDropped := by
  intro before o after hsplit
  have hi := reachable_settled h
  by_cases hlast : after = []
  · right
    intro c hc
    have hnew := hi.ctx c (hi.instances c hc)
    rw [hsplit, hlast, List.getLast?_concat] at hnew
    rw [hnew]
    exact Context.new_carries env o
  · exact .inl hlast

section Runs

def plainEnv : ContextEnv := ⟨0, false⟩

/-- Domain 7 with a fragment of one byte. -/
def sevenOverrides : DdsConfigOverrides := ⟨some 7, [0x3c]⟩

/-- The run of the test: `configure`, then the first `instance()`. -/
theorem no_configuration_dropped_orderly :
    ∃ s, ((contextSystem plainEnv).restrict OutsideWindow).Reachable s ∧ s.returned = [sevenOverrides] ∧
      s.instances = [⟨7, false, [0x3c]⟩] ∧ s.NoneDropped := by
  have h0 : ((contextSystem plainEnv).restrict OutsideWindow).Reachable .new := .init rfl
  have h1 := h0.step_restrict (.configure sevenOverrides rfl) (by decide)
  have h2 := h1.step_restrict (.call rfl) trivial
  have h3 := h2.step_restrict (.construct rfl) trivial
  have h4 := h3.step_restrict (.assign _ rfl) trivial
  have h5 := h4.step_restrict (.getInstance _ rfl) trivial
  exact ⟨_, h5, rfl, rfl, no_configuration_dropped h5⟩

/-- A `configure` between the constructor's critical section and the assignment returns normally, and its
overrides are nowhere. -/
theorem configuration_in_window_dropped :
    ∃ s, (contextSystem plainEnv).Reachable s ∧ ¬ s.NoneDropped := by
  have h0 : (contextSystem plainEnv).Reachable .new := .init rfl
  have h1 := h0.step (.call rfl)
  have h2 := h1.step (.construct rfl)
  have h3 := h2.step (.configure sevenOverrides rfl)
  have h4 := h3.step (.assign _ rfl)
  have h5 := h4.step (.getInstance _ rfl)
  refine ⟨_, h5, fun h => ?_⟩
  rcases h [] sevenOverrides [] rfl with hne | hall
  · exact hne rfl
  · exact absurd (hall _ List.mem_cons_self).1 (by decide)

end Runs

end Rcllite
