import Mathlib.Data.List.TakeWhile
import Mathlib.Logic.Function.Basic
import Mathlib.Tactic.Common

/-! Regular expressions with groups, matched at the start of a text as a backtracking matcher does it:
every choice is tried in its order, the greedy ones longest first, and the first way through wins. -/
namespace Regex
variable {α β : Type}

inductive Re (α : Type) where
  | cls (p : α → Bool)
  | many (p : α → Bool)
  | seq (r s : Re α)
  | opt (r : Re α)
  | group (i : ℕ) (r : Re α)
  | look (q : List α → Bool)

namespace Re

def plus (p : α → Bool) : Re α := seq (cls p) (many p)

end Re

/-- What each group has captured. -/
abbrev Groups (α : Type) := ℕ → Option (List α)

def Groups.set (g : Groups α) (i : ℕ) : Option (List α) → Groups α
  | none => g
  | some w => Function.update g i (some w)

/-- A greedy run of a class, with what comes after it tried at every length. -/
def runMany (p : α → Bool) (k : List α → Option β) : List α → Option β
  | [] => k []
  | c :: cs => if p c then (runMany p k cs).or (k (c :: cs)) else k (c :: cs)

/-- The matcher, with the rest of the expression as its continuation. -/
def run : Re α → (List α → Groups α → Option β) → List α → Groups α → Option β
  | .cls _, _, [], _ => none
  | .cls p, k, c :: cs, g => if p c then k cs g else none
  | .many p, k, cs, g => runMany p (fun rest => k rest g) cs
  | .seq r s, k, cs, g => run r (run s k) cs g
  | .opt r, k, cs, g => (run r k cs g).or (k cs g)
  | .group i r, k, cs, g =>
    run r (fun rest g' => k rest (g'.set i (some (cs.take (cs.length - rest.length))))) cs g
  | .look q, k, cs, g => if q cs then k cs g else none

/-- The groups of the match at the start of the text. -/
def matchStart (r : Re α) (cs : List α) : Option (Groups α) := run r (fun _ g => some g) cs (fun _ => none)

section Rules
variable {p : α → Bool} {k : List α → Groups α → Option β} {cs : List α} {g : Groups α}

@[simp] theorem run_seq (r s : Re α) : run (.seq r s) k cs g = run r (run s k) cs g := rfl

@[simp] theorem run_opt (r : Re α) : run (.opt r) k cs g = (run r k cs g).or (k cs g) := rfl

@[simp] theorem run_group (i : ℕ) (r : Re α) :
    run (.group i r) k cs g =
      run r (fun rest g' => k rest (g'.set i (some (cs.take (cs.length - rest.length))))) cs g := rfl

@[simp] theorem run_look (q : List α → Bool) : run (.look q) k cs g = if q cs then k cs g else none := rfl

theorem run_cls {c : α} (h : p c = true) : run (.cls p) k (c :: cs) g = k cs g := if_pos h

theorem run_cls_of_not {c : α} (h : p c = false) : run (.cls p) k (c :: cs) g = none := by
  simp [run, h]

/-- A run of a class stops where the class does, when either what follows cannot start inside the run or
it succeeds after it: then no shorter run is ever taken. -/
theorem runMany_append {f : List α → Option β} {w rest : List α} (hw : ∀ c ∈ w, p c = true)
    (hstop : ∀ c ∈ rest.head?, p c = false) (hf : (∀ c ∈ w, ∀ cs, f (c :: cs) = none) ∨ (f rest).isSome) :
    runMany p f (w ++ rest) = f rest := by
  induction w with
  | nil =>
    cases rest with
    | nil => rfl
    | cons c cs =>
      have hc := hstop c rfl
      simp [runMany, hc]
  | cons c w ih =>
    have hc := hw c List.mem_cons_self
    have hrest : runMany p f (w ++ rest) = f rest := by
      refine ih (fun d hd => hw d (List.mem_cons_of_mem _ hd)) ?_
      exact hf.imp_left fun h d hd => h d (List.mem_cons_of_mem _ hd)
    rw [List.cons_append, runMany, if_pos hc, hrest]
    rcases hf with hf | hf
    · rw [hf c List.mem_cons_self, Option.or_none]
    · exact Option.or_of_isSome hf

theorem run_many {w rest : List α} (hw : ∀ c ∈ w, p c = true) (hstop : ∀ c ∈ rest.head?, p c = false)
    (hk : (∀ c ∈ w, ∀ cs, k (c :: cs) g = none) ∨ (k rest g).isSome) :
    run (.many p) k (w ++ rest) g = k rest g :=
  runMany_append hw hstop hk

theorem run_many_blocked (hk : ∀ c, p c = true → ∀ cs, k (c :: cs) g = none) (cs : List α) :
    run (.many p) k cs g = k (cs.dropWhile p) g := by
  have hstop : ∀ c ∈ (cs.dropWhile p).head?, p c = false := by
    intro c hc
    have h := List.head?_dropWhile_not p cs
    rw [Option.mem_def.mp hc] at h
    simpa using h
  have h := run_many (k := k) (g := g) (w := cs.takeWhile p) (fun c hc => List.mem_takeWhile_imp hc) hstop
    (.inl fun c hc => hk c (List.mem_takeWhile_imp hc))
  rwa [List.takeWhile_append_dropWhile] at h

theorem run_plus {w rest : List α} (hne : w ≠ []) (hw : ∀ c ∈ w, p c = true)
    (hstop : ∀ c ∈ rest.head?, p c = false) (hk : (∀ c ∈ w, ∀ cs, k (c :: cs) g = none) ∨ (k rest g).isSome) :
    run (.plus p) k (w ++ rest) g = k rest g := by
  obtain ⟨c, w, rfl⟩ := List.exists_cons_of_ne_nil hne
  rw [Re.plus, List.cons_append, run_seq, run_cls (hw c List.mem_cons_self)]
  refine run_many (fun d hd => hw d (List.mem_cons_of_mem _ hd)) hstop ?_
  exact hk.imp_left fun h d hd => h d (List.mem_cons_of_mem _ hd)

theorem run_plus_of_not {c : α} (h : p c = false) : run (.plus p) k (c :: cs) g = none := by
  rw [Re.plus, run_seq, run_cls_of_not h]

theorem run_opt_of_none {r : Re α} (h : run r k cs g = none) : run (.opt r) k cs g = k cs g := by
  rw [run_opt, h, Option.none_or]

theorem run_opt_of_some {r : Re α} (h : (run r k cs g).isSome) : run (.opt r) k cs g = run r k cs g := by
  rw [run_opt, Option.or_of_isSome h]

/-- What a group captures, from the length that is left after it. -/
theorem take_captured (w rest : List α) : (w ++ rest).take ((w ++ rest).length - rest.length) = w := by
  simp

@[simp] theorem set_same (i : ℕ) (w : List α) : g.set i (some w) i = some w := Function.update_self _ _ _

theorem set_of_ne {i j : ℕ} (h : j ≠ i) (o : Option (List α)) : g.set i o j = g j := by
  cases o with
  | none => rfl
  | some w => exact Function.update_of_ne h _ _

theorem set_new {i : ℕ} (h : g i = none) (o : Option (List α)) : g.set i o i = o := by
  cases o with
  | none => exact h
  | some w => exact set_same i w

end Rules

end Regex
