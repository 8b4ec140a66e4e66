import Rcllite.MsgCodegen

/-! `dds::Reader::take`, the loop that hands every available sample to a
callback. -/
namespace Rcllite

/-- A taken sample: its payload, and the `valid_data` flag of its info. -/
structure Sample where
  payload : List UInt8
  validData : Bool
deriving DecidableEq, Repr

variable {σ : Type}

/-- The inner loop of `take`. An exception of the callback leaves it at once. -/
def takeBatch (fn : List UInt8 → σ → Except Failure σ) : List Sample → σ → σ × Option Failure
  | [], s => (s, none)
  | x :: xs, s =>
    if x.validData then
      match fn x.payload s with
      | .ok s' => takeBatch fn xs s'
      | .error e => (s, some e)
    else takeBatch fn xs s

/-- `take` on the queue of a reader: batches of 16 until one comes back short.
Also what is left in the queue. -/
def Reader.take (fn : List UInt8 → σ → Except Failure σ) (queue : List Sample) (s : σ) :
    σ × List Sample × Option Failure :=
  match takeBatch fn (queue.take 16) s with
  | (s', some e) => (s', queue.drop 16, some e)
  | (s', none) =>
    if (queue.take 16).length < 16 then (s', queue.drop 16, none) else Reader.take fn (queue.drop 16) s'
termination_by queue.length
decreasing_by
  rename_i h
  simp only [List.length_take, List.length_drop] at h ⊢
  omega

theorem takeBatch_append (fn : List UInt8 → σ → Except Failure σ) (xs ys : List Sample) (s : σ) :
    takeBatch fn (xs ++ ys) s =
      match takeBatch fn xs s with
      | (s', some e) => (s', some e)
      | (s', none) => takeBatch fn ys s' := by
  induction xs generalizing s with
  | nil => rfl
  | cons x xs ih =>
    simp only [List.cons_append, takeBatch]
    split_ifs
    · cases fn x.payload s with
      | error e => rfl
      | ok s' => exact ih s'
    · exact ih s

/-- Batching is invisible to the state and to the exception. -/
theorem Reader.take_eq (fn : List UInt8 → σ → Except Failure σ) (queue : List Sample) (s : σ) :
    ((Reader.take fn queue s).1, (Reader.take fn queue s).2.2) = takeBatch fn queue s := by
  induction queue, s using Reader.take.induct fn with
  | case1 queue s s' e h =>
    have hall := takeBatch_append fn (queue.take 16) (queue.drop 16) s
    rw [List.take_append_drop, h] at hall
    rw [Reader.take, h, hall]
  | case2 queue s s' h hlen =>
    have hall := takeBatch_append fn (queue.take 16) (queue.drop 16) s
    have hnil : queue.drop 16 = [] := by
      apply List.drop_eq_nil_of_le
      rw [List.length_take] at hlen
      omega
    rw [List.take_append_drop, h, hnil] at hall
    rw [Reader.take, h, hall]
    simp only [if_pos hlen]
    rfl
  | case3 queue s s' h hlen ih =>
    have hall := takeBatch_append fn (queue.take 16) (queue.drop 16) s
    rw [List.take_append_drop, h] at hall
    rw [Reader.take, h, hall]
    simp only [if_neg hlen]
    exact ih

end Rcllite
