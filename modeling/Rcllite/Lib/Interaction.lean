import Mathlib.Data.List.Chain
import Mathlib.Data.Vector.Basic
import Mathlib.Tactic.Common

/-! Programs that call a fixed set of operations, and the handlers that run
them on a state. A fact proved once for every operation of a handler holds
along every run of every program. -/
namespace Interaction

structure Signature where
  Op : Type
  Reply : Op → Type

inductive Prog (S : Signature) (ε α : Type) : Type where
  | done (a : α)
  | fail (e : ε)
  | call (o : S.Op) (next : S.Reply o → Prog S ε α)

/-- A handler answers one operation, or stops the run. -/
abbrev Handler (S : Signature) (ε σ : Type) := (o : S.Op) → σ → Except ε (S.Reply o × σ)

namespace Prog
variable {S : Signature} {ε α β σ τ : Type}

def bind : Prog S ε α → (α → Prog S ε β) → Prog S ε β
  | .done a, k => k a
  | .fail e, _ => .fail e
  | .call o next, k => .call o (fun r => (next r).bind k)

instance : Monad (Prog S ε) where
  pure := .done
  bind := .bind

def op (o : S.Op) : Prog S ε (S.Reply o) := .call o .done

/-- Run the same program `n` times and collect the results. -/
def times (p : Prog S ε α) : ℕ → Prog S ε (List α)
  | 0 => .done []
  | n+1 => p.bind (fun a => (times p n).bind (fun as => .done (a :: as)))

/-- Visit the entries of a fixed-length vector in order. -/
def forVec (f : α → Prog S ε β) : {n : ℕ} → List.Vector α n → Prog S ε (List.Vector β n)
  | 0, _ => .done .nil
  | _+1, v => (f v.head).bind (fun b => (forVec f v.tail).bind (fun bs => .done (b ::ᵥ bs)))

def run (h : Handler S ε σ) : Prog S ε α → σ → Except ε (α × σ)
  | .done a, s => .ok (a, s)
  | .fail e, _ => .error e
  | .call o next, s =>
    match h o s with
    | .ok (r, s') => (next r).run h s'
    | .error e => .error e

/-- Every operation the run invokes, with the state it is invoked in; the
last one may be the one that stops the run. -/
def calls (h : Handler S ε σ) : Prog S ε α → σ → List (S.Op × σ)
  | .done _, _ => []
  | .fail _, _ => []
  | .call o next, s => (o, s) ::
    match h o s with
    | .ok (r, s') => (next r).calls h s'
    | .error _ => []

/-- Every state the run passes through, the initial one first. -/
def states (h : Handler S ε σ) : Prog S ε α → σ → List σ
  | .done _, s => [s]
  | .fail _, s => [s]
  | .call o next, s => s ::
    match h o s with
    | .ok (r, s') => (next r).states h s'
    | .error _ => []

/-- Every operation the program can reach satisfies `P` and every failure it
raises by itself satisfies `Q`, whatever the handler answers. -/
def Uses (P : S.Op → Prop) (Q : ε → Prop) : Prog S ε α → Prop
  | .done _ => True
  | .fail e => Q e
  | .call o next => P o ∧ ∀ r, (next r).Uses P Q

@[simp] theorem pure_eq (a : α) : (pure a : Prog S ε α) = .done a := rfl

@[simp] theorem bind_eq (p : Prog S ε α) (k : α → Prog S ε β) : p >>= k = p.bind k := rfl

@[simp] theorem done_bind (a : α) (k : α → Prog S ε β) : (Prog.done a).bind k = k a := rfl

@[simp] theorem run_done (h : Handler S ε σ) (a : α) (s : σ) : (Prog.done a).run h s = .ok (a, s) := rfl

@[simp] theorem run_fail (h : Handler S ε σ) (e : ε) (s : σ) :
    (Prog.fail e : Prog S ε α).run h s = .error e := rfl

theorem bind_done (p : Prog S ε α) : p.bind .done = p := by
  induction p with
  | done a => rfl
  | fail e => rfl
  | call o next ih => exact congrArg (Prog.call o) (funext ih)

theorem bind_assoc (p : Prog S ε α) (k : α → Prog S ε β) {γ : Type} (l : β → Prog S ε γ) :
    (p.bind k).bind l = p.bind (fun a => (k a).bind l) := by
  induction p with
  | done a => rfl
  | fail e => rfl
  | call o next ih => exact congrArg (Prog.call o) (funext ih)

theorem run_op (h : Handler S ε σ) (o : S.Op) (s : σ) : (op o : Prog S ε _).run h s = h o s := by
  simp only [op, run]
  split <;> simp_all

theorem calls_op (h : Handler S ε σ) (o : S.Op) (s : σ) : (op o : Prog S ε _).calls h s = [(o, s)] := by
  simp only [op, calls]
  split <;> rfl

/-- Running a sequence: the first part decides the state of the second. -/
theorem run_bind (h : Handler S ε σ) (p : Prog S ε α) (k : α → Prog S ε β) (s : σ) :
    (p.bind k).run h s =
      match p.run h s with
      | .ok (a, s') => (k a).run h s'
      | .error e => .error e := by
  induction p generalizing s with
  | done a => rfl
  | fail e => rfl
  | call o next ih =>
    simp only [bind, run]
    cases h o s with
    | error e => rfl
    | ok rs => exact ih rs.1 rs.2

theorem run_bind_ok (h : Handler S ε σ) {p : Prog S ε α} {s s' : σ} {a : α}
    (hp : p.run h s = .ok (a, s')) (k : α → Prog S ε β) : (p.bind k).run h s = (k a).run h s' := by
  rw [run_bind, hp]

theorem run_bind_error (h : Handler S ε σ) {p : Prog S ε α} {s : σ} {e : ε}
    (hp : p.run h s = .error e) (k : α → Prog S ε β) : (p.bind k).run h s = .error e := by
  rw [run_bind, hp]

/-- Runs compared up to the failure they end in. -/
theorem toOption_run_bind (h : Handler S ε σ) (p : Prog S ε α) (k : α → Prog S ε β) (s : σ) :
    ((p.bind k).run h s).toOption =
      (p.run h s).toOption.bind (fun x => ((k x.1).run h x.2).toOption) := by
  rw [run_bind]
  cases p.run h s with
  | error e => rfl
  | ok x => rfl

/-- Two continuations that agree wherever the first part can leave off. -/
theorem toOption_run_bind_congr (h : Handler S ε σ) (p : Prog S ε α) {k l : α → Prog S ε β} {s : σ}
    (hkl : ∀ a s', p.run h s = .ok (a, s') → ((k a).run h s').toOption = ((l a).run h s').toOption) :
    ((p.bind k).run h s).toOption = ((p.bind l).run h s).toOption := by
  rw [toOption_run_bind, toOption_run_bind]
  cases hp : p.run h s with
  | error e => rfl
  | ok x => exact hkl x.1 x.2 hp

/-- A loop that ignores the old entries is the plain loop. -/
theorem toOption_run_forVec (h : Handler S ε σ) (p : Prog S ε β) {n : ℕ} (v : List.Vector α n) (s : σ) :
    ((forVec (fun _ => p) v).run h s).toOption.map (fun x => (x.1.toList, x.2)) =
      ((p.times n).run h s).toOption := by
  induction n generalizing s with
  | zero => rfl
  | succ n ih =>
    simp only [forVec, times, toOption_run_bind, Option.map_bind]
    congr 1
    funext x
    rw [← ih v.tail x.2, Function.comp_apply]
    cases (forVec (fun _ => p) v.tail).run h x.2 with
    | error e => rfl
    | ok y => simp [Except.toOption, List.Vector.toList_cons]

theorem run_bind_eq_ok (h : Handler S ε σ) {p : Prog S ε α} {k : α → Prog S ε β} {s s' : σ} {b : β}
    (hrun : (p.bind k).run h s = .ok (b, s')) :
    ∃ a u, p.run h s = .ok (a, u) ∧ (k a).run h u = .ok (b, s') := by
  rw [run_bind] at hrun
  cases hp : p.run h s with
  | error e => simp [hp] at hrun
  | ok x => exact ⟨x.1, x.2, rfl, by simpa [hp] using hrun⟩

theorem run_times_succ (h : Handler S ε σ) {p : Prog S ε α} {n : ℕ} {s u s' : σ} {a : α} {as : List α}
    (hp : p.run h s = .ok (a, u)) (hn : (p.times n).run h u = .ok (as, s')) :
    (p.times (n + 1)).run h s = .ok (a :: as, s') := by
  rw [times, run_bind_ok h hp, run_bind_ok h hn, run_done]

/-- A completed loop was completed by its first part and then by its second. -/
theorem run_times_add (h : Handler S ε σ) (p : Prog S ε α) (m n : ℕ) (s s' : σ) :
    (∃ as, (p.times (m + n)).run h s = .ok (as, s')) ↔
      ∃ as u bs, (p.times m).run h s = .ok (as, u) ∧ (p.times n).run h u = .ok (bs, s') := by
  induction m generalizing s with
  | zero =>
    rw [Nat.zero_add]
    constructor
    · rintro ⟨as, has⟩
      exact ⟨[], s, as, rfl, has⟩
    · rintro ⟨as, u, bs, has, hbs⟩
      obtain rfl : s = u := (Prod.mk.inj (Except.ok.inj has)).2
      exact ⟨bs, hbs⟩
  | succ m ih =>
    rw [Nat.succ_add]
    constructor
    · rintro ⟨cs, hcs⟩
      obtain ⟨c, v, hc, hrest⟩ := run_bind_eq_ok h hcs
      obtain ⟨cs', v', hloop, hdone⟩ := run_bind_eq_ok h hrest
      obtain rfl : v' = s' := (Prod.mk.inj (Except.ok.inj hdone)).2
      obtain ⟨as, u, bs, has, hbs⟩ := (ih v).mp ⟨cs', hloop⟩
      exact ⟨c :: as, u, bs, run_times_succ h hc has, hbs⟩
    · rintro ⟨as, u, bs, has, hbs⟩
      obtain ⟨c, v, hc, hrest⟩ := run_bind_eq_ok h has
      obtain ⟨as', v', hloop, hdone⟩ := run_bind_eq_ok h hrest
      obtain rfl : v' = u := (Prod.mk.inj (Except.ok.inj hdone)).2
      obtain ⟨cs, hcs⟩ := (ih v).mpr ⟨as', v', bs, hloop, hbs⟩
      exact ⟨c :: cs, run_times_succ h hc hcs⟩

theorem calls_bind (h : Handler S ε σ) (p : Prog S ε α) (k : α → Prog S ε β) (s : σ) :
    (p.bind k).calls h s = p.calls h s ++
      match p.run h s with
      | .ok (a, s') => (k a).calls h s'
      | .error _ => [] := by
  induction p generalizing s with
  | done a => rfl
  | fail e => rfl
  | call o next ih =>
    simp only [bind, calls, run]
    cases h o s with
    | error e => rfl
    | ok rs => simp only [ih, List.cons_append]

theorem state_mem_of_mem_calls (h : Handler S ε σ) (p : Prog S ε α) (s : σ)
    (c : S.Op × σ) (hc : c ∈ p.calls h s) : c.2 ∈ p.states h s := by
  induction p generalizing s with
  | done a => simp [calls] at hc
  | fail e => simp [calls] at hc
  | call o next ih =>
    simp only [calls, states, List.mem_cons] at hc ⊢
    rcases hc with rfl | hc
    · exact Or.inl rfl
    · right
      cases ho : h o s with
      | error e => simp [ho] at hc
      | ok rs =>
        simp only [ho] at hc ⊢
        exact ih rs.1 rs.2 hc

section Rules
variable {P : S.Op → Prop} {Q : ε → Prop}

theorem uses_bind {p : Prog S ε α} {k : α → Prog S ε β}
    (hp : p.Uses P Q) (hk : ∀ a, (k a).Uses P Q) : (p.bind k).Uses P Q := by
  induction p with
  | done a => exact hk a
  | fail e => exact hp
  | call o next ih => exact ⟨hp.1, fun r => ih r (hp.2 r)⟩

theorem uses_trivial (p : Prog S ε α) : p.Uses (fun _ => True) (fun _ => True) := by
  induction p with
  | done a => trivial
  | fail e => trivial
  | call o next ih => exact ⟨trivial, ih⟩

theorem uses_op {o : S.Op} (ho : P o) : (op o : Prog S ε _).Uses P Q := ⟨ho, fun _ => trivial⟩

theorem uses_times {p : Prog S ε α} (hp : p.Uses P Q) (n : ℕ) : (p.times n).Uses P Q := by
  induction n with
  | zero => trivial
  | succ n ih => exact uses_bind hp (fun _ => uses_bind ih (fun _ => trivial))

theorem uses_forVec {f : α → Prog S ε β} (hf : ∀ a, (f a).Uses P Q) {n : ℕ}
    (v : List.Vector α n) : (forVec f v).Uses P Q := by
  induction n with
  | zero => trivial
  | succ n ih => exact uses_bind (hf _) (fun _ => uses_bind (ih _) (fun _ => trivial))

theorem calls_uses (h : Handler S ε σ) {p : Prog S ε α} (hp : p.Uses P Q) (s : σ)
    (c : S.Op × σ) (hc : c ∈ p.calls h s) : P c.1 := by
  induction p generalizing s with
  | done a => simp [calls] at hc
  | fail e => simp [calls] at hc
  | call o next ih =>
    simp only [calls, List.mem_cons] at hc
    rcases hc with rfl | hc
    · exact hp.1
    · cases ho : h o s with
      | error e => simp [ho] at hc
      | ok rs =>
        simp only [ho] at hc
        exact ih rs.1 (hp.2 rs.1) rs.2 hc

/-- The invariant rule: what every operation preserves holds in every state
of every run. -/
theorem states_invariant (h : Handler S ε σ) (I : σ → Prop)
    (step : ∀ o s r s', P o → I s → h o s = .ok (r, s') → I s')
    (p : Prog S ε α) (hp : p.Uses P Q) (s : σ) (hs : I s) : ∀ s' ∈ p.states h s, I s' := by
  induction p generalizing s with
  | done a => simpa [states] using hs
  | fail e => simpa [states] using hs
  | call o next ih =>
    intro s' hs'
    simp only [states, List.mem_cons] at hs'
    rcases hs' with rfl | hs'
    · exact hs
    · cases ho : h o s with
      | error e => simp [ho] at hs'
      | ok rs =>
        simp only [ho] at hs'
        exact ih rs.1 (hp.2 rs.1) rs.2 (step o s rs.1 rs.2 hp.1 hs ho) s' hs'

/-- A relation that every operation respects links consecutive states. -/
theorem states_chain (h : Handler S ε σ) (I : σ → Prop) (R : σ → σ → Prop)
    (step : ∀ o s r s', P o → I s → h o s = .ok (r, s') → I s' ∧ R s s')
    (p : Prog S ε α) (hp : p.Uses P Q) (s : σ) (hs : I s) : (p.states h s).IsChain R := by
  induction p generalizing s with
  | done a => simp [states]
  | fail e => simp [states]
  | call o next ih =>
    cases ho : h o s with
    | error e => simp [states, ho]
    | ok rs =>
      obtain ⟨hi, hr⟩ := step o s rs.1 rs.2 hp.1 hs ho
      have ht := ih rs.1 (hp.2 rs.1) rs.2 hi
      simp only [states, ho]
      cases hn : next rs.1 with
      | done a => simpa [states] using hr
      | fail e => simpa [states] using hr
      | call o' next' =>
        rw [hn] at ht
        simp only [states] at ht ⊢
        exact List.isChain_cons_cons.mpr ⟨hr, ht⟩

/-- The failures of a run come from the handler or from the program. -/
theorem run_error (h : Handler S ε σ) (I : σ → Prop)
    (step : ∀ o s, P o → I s → match h o s with
      | .ok (_, s') => I s'
      | .error e => Q e)
    (p : Prog S ε α) (hp : p.Uses P Q) (s : σ) (hs : I s) (e : ε)
    (he : p.run h s = .error e) : Q e := by
  induction p generalizing s with
  | done a => simp at he
  | fail e' =>
    simp only [run_fail, Except.error.injEq] at he
    exact he ▸ hp
  | call o next ih =>
    have hstep := step o s hp.1 hs
    simp only [run] at he
    cases ho : h o s with
    | error e' =>
      simp only [ho, Except.error.injEq] at he hstep
      exact he ▸ hstep
    | ok rs =>
      simp only [ho] at he hstep
      exact ih rs.1 (hp.2 rs.1) rs.2 hstep he

/-- The simulation rule: when a second handler answers alike wherever the
first one answers, it completes every run the first one completes. -/
theorem run_simulation (h : Handler S ε σ) (h' : Handler S ε τ) (R : σ → τ → Prop)
    (step : ∀ o s t r s', P o → R s t → h o s = .ok (r, s') →
      ∃ t', h' o t = .ok (r, t') ∧ R s' t')
    (p : Prog S ε α) (hp : p.Uses P Q) (s : σ) (t : τ) (hst : R s t) (a : α) (s' : σ)
    (hrun : p.run h s = .ok (a, s')) : ∃ t', p.run h' t = .ok (a, t') ∧ R s' t' := by
  induction p generalizing s t with
  | done b =>
    simp only [run_done, Except.ok.injEq, Prod.mk.injEq] at hrun
    obtain ⟨rfl, rfl⟩ := hrun
    exact ⟨t, rfl, hst⟩
  | fail e => simp at hrun
  | call o next ih =>
    simp only [run] at hrun
    cases ho : h o s with
    | error e => simp [ho] at hrun
    | ok rs =>
      simp only [ho] at hrun
      obtain ⟨t', ht', hr'⟩ := step o s t rs.1 rs.2 hp.1 hst ho
      obtain ⟨t'', ht'', hr''⟩ := ih rs.1 (hp.2 rs.1) rs.2 t' hr' hrun
      exact ⟨t'', by simp only [run, ht', ht''], hr''⟩

/-- The invariant rule for the state a run that completes leaves. -/
theorem run_invariant (h : Handler S ε σ) (I : σ → Prop)
    (step : ∀ o s r s', P o → I s → h o s = .ok (r, s') → I s')
    (p : Prog S ε α) (hp : p.Uses P Q) {s s' : σ} (hs : I s) {a : α} (hrun : p.run h s = .ok (a, s')) :
    I s' := by
  -- the run simulates itself
  have hstep : ∀ o (u t : σ) r u', P o → (u = t ∧ I u) → h o u = .ok (r, u') →
      ∃ t', h o t = .ok (r, t') ∧ (u' = t' ∧ I u') := by
    rintro o u _ r u' ho ⟨rfl, hu⟩ hok
    exact ⟨u', hok, rfl, step o u r u' ho hu hok⟩
  obtain ⟨t', -, -, hI⟩ := run_simulation h h (fun u t => u = t ∧ I u) hstep p hp s s ⟨rfl, hs⟩ a s' hrun
  exact hI

end Rules

end Prog

end Interaction
