import Rcllite.EntityDispatch
import Rcllite.GraphSnapshot

/-! `dds::Reader::take` with the serdata references it holds: what `dds_takecdr`
handed out, what was offered to the callback and what was given back, on every
way out of the loop. -/
namespace Rcllite

/-- A sample handed out by `dds_takecdr`, with the reference that has to be
given back. -/
structure Loan where
  serdata : ℕ
  sample : Sample
deriving DecidableEq, Repr

/-- The samples with data, in order. -/
def validLoans (xs : List Loan) : List Loan := xs.filter (fun x => x.sample.validData)

/-- The state of the callback, and the calls made so far. -/
structure TakeRun (σ : Type) where
  state : σ
  handedOut : List Loan
  offered : List Loan
  unrefs : List ℕ

variable {σ : Type}

/-- The inner loop; an exception of `fn` leaves it in front of the
`ddsi_serdata_unref` of its own sample. -/
def takeRunBatch (fn : List UInt8 → σ → σ × Option Failure) : List Loan → TakeRun σ → TakeRun σ × Option Failure
  | [], t => (t, none)
  | x :: xs, t =>
    if x.sample.validData then
      match fn x.sample.payload t.state with
      | (s, none) => takeRunBatch fn xs
          { t with state := s, offered := t.offered ++ [x], unrefs := t.unrefs ++ [x.serdata] }
      | (s, some e) => ({ t with state := s, offered := t.offered ++ [x] }, some e)
    else takeRunBatch fn xs { t with unrefs := t.unrefs ++ [x.serdata] }

/-- `take`: `fails k` is the negative code the `k`-th `dds_takecdr` returns, if
it fails. Also what is left in the queue. -/
def Reader.takeRun (fails : ℕ → Option ℤ) (fn : List UInt8 → σ → σ × Option Failure) (call : ℕ)
    (queue : List Loan) (takenTotal : ℕ) (t : TakeRun σ) : TakeRun σ × List Loan × Except Failure ℕ :=
  match fails call with
  | some code => (t, queue, .error (.error ("dds_takecdr failed: " ++ toString code)))
  | none =>
    match takeRunBatch fn (queue.take 16) { t with handedOut := t.handedOut ++ queue.take 16 } with
    | (t', some e) => (t', queue.drop 16, .error e)
    | (t', none) =>
      if (queue.take 16).length < 16 then (t', queue.drop 16, .ok (takenTotal + (queue.take 16).length))
      else Reader.takeRun fails fn (call + 1) (queue.drop 16) (takenTotal + (queue.take 16).length) t'
termination_by queue.length
decreasing_by
  rename_i h
  simp only [List.length_take, List.length_drop] at h ⊢
  omega

/-- Every reference was given back exactly once, and every sample with data
was offered. -/
structure TakeRun.Settled (t : TakeRun σ) : Prop where
  unrefs : t.unrefs.Perm (t.handedOut.map Loan.serdata)
  offered : t.offered = validLoans t.handedOut

/-- What the calls of `dds_takecdr` hand out before one of them fails. -/
def availableLoans (fails : ℕ → Option ℤ) (call : ℕ) (queue : List Loan) : List Loan :=
  match fails call with
  | some _ => []
  | none =>
    if (queue.take 16).length < 16 then queue.take 16
    else queue.take 16 ++ availableLoans fails (call + 1) (queue.drop 16)
termination_by queue.length
decreasing_by
  rename_i h
  simp only [List.length_take, List.length_drop] at h ⊢
  omega

/-- Called on the samples in order, `fn` raises on none. -/
def Quiet (fn : List UInt8 → σ → σ × Option Failure) : List Loan → σ → Prop
  | [], _ => True
  | x :: xs, s => (fn x.sample.payload s).2 = none ∧ Quiet fn xs (fn x.sample.payload s).1

section Take
variable {fn : List UInt8 → σ → σ × Option Failure}

theorem validLoans_append (xs ys : List Loan) : validLoans (xs ++ ys) = validLoans xs ++ validLoans ys :=
  List.filter_append xs ys

theorem quiet_append (xs ys : List Loan) (s : σ) : Quiet fn (xs ++ ys) s ↔
    Quiet fn xs s ∧ Quiet fn ys (xs.foldl (fun s x => (fn x.sample.payload s).1) s) := by
  induction xs generalizing s with
  | nil => simp [Quiet]
  | cons x xs ih => simp only [List.cons_append, Quiet, List.foldl_cons, ih, and_assoc]

/-- A batch on which the callback stays quiet is offered and given back whole. -/
theorem takeRunBatch_quiet (xs : List Loan) (t : TakeRun σ) (h : Quiet fn (validLoans xs) t.state) :
    takeRunBatch fn xs t =
      ({ state := (validLoans xs).foldl (fun s x => (fn x.sample.payload s).1) t.state
         handedOut := t.handedOut
         offered := t.offered ++ validLoans xs
         unrefs := t.unrefs ++ xs.map Loan.serdata }, none) := by
  induction xs generalizing t with
  | nil => simp [takeRunBatch, validLoans]
  | cons x xs ih =>
    rw [takeRunBatch]
    by_cases hx : x.sample.validData
    · have hcons : validLoans (x :: xs) = x :: validLoans xs := List.filter_cons_of_pos hx
      rw [hcons] at h ⊢
      rcases hfn : fn x.sample.payload t.state with ⟨s, e⟩
      simp only [Quiet, hfn] at h
      obtain ⟨rfl, hrest⟩ := h
      rw [if_pos hx]
      dsimp only
      rw [ih _ hrest, List.foldl_cons, hfn]
      simp only [List.append_assoc, List.singleton_append, List.map_cons]
    · have hcons : validLoans (x :: xs) = validLoans xs := List.filter_cons_of_neg hx
      rw [hcons] at h ⊢
      rw [if_neg hx, ih { t with unrefs := t.unrefs ++ [x.serdata] } h]
      simp only [List.append_assoc, List.singleton_append, List.map_cons]

/-- A batch on which the callback raises keeps at least one reference. -/
theorem takeRunBatch_raise (xs : List Loan) (t : TakeRun σ) (h : ¬ Quiet fn (validLoans xs) t.state) :
    ∃ t' e, takeRunBatch fn xs t = (t', some e) ∧ t'.handedOut = t.handedOut ∧
      t'.unrefs.length < t.unrefs.length + xs.length := by
  induction xs generalizing t with
  | nil => exact absurd trivial h
  | cons x xs ih =>
    rw [takeRunBatch]
    by_cases hx : x.sample.validData
    · have hcons : validLoans (x :: xs) = x :: validLoans xs := List.filter_cons_of_pos hx
      rw [hcons] at h
      rw [if_pos hx]
      rcases hfn : fn x.sample.payload t.state with ⟨s, _ | e⟩
      · simp only [Quiet, hfn, true_and] at h
        obtain ⟨t', e, hrun, hout, hlen⟩ :=
          ih { t with state := s, offered := t.offered ++ [x], unrefs := t.unrefs ++ [x.serdata] } h
        refine ⟨t', e, hrun, hout, ?_⟩
        simp only [List.length_append, List.length_cons, List.length_nil] at hlen ⊢
        omega
      · refine ⟨_, e, rfl, rfl, ?_⟩
        simp only [List.length_cons]
        omega
    · have hcons : validLoans (x :: xs) = validLoans xs := List.filter_cons_of_neg hx
      rw [hcons] at h
      rw [if_neg hx]
      obtain ⟨t', e, hrun, hout, hlen⟩ := ih { t with unrefs := t.unrefs ++ [x.serdata] } h
      refine ⟨t', e, hrun, hout, ?_⟩
      simp only [List.length_append, List.length_cons, List.length_nil] at hlen ⊢
      omega

theorem TakeRun.Settled.batch {t : TakeRun σ} (ht : t.Settled) (xs : List Loan) (s : σ) :
    TakeRun.Settled
      { state := s
        handedOut := t.handedOut ++ xs
        offered := t.offered ++ validLoans xs
        unrefs := t.unrefs ++ xs.map Loan.serdata } where
  unrefs := by
    rw [List.map_append]
    exact ht.unrefs.append_right _
  offered := by rw [validLoans_append, ht.offered]

/-- A batch that raised leaves the books unbalanced. -/
theorem not_settled_of_raise {t t' : TakeRun σ} (ht : t.Settled) {xs : List Loan} {e : Failure}
    (hrun : takeRunBatch fn xs { t with handedOut := t.handedOut ++ xs } = (t', some e)) :
    ¬ Quiet fn (validLoans xs) t.state ∧ ¬ t'.Settled := by
  have hloud : ¬ Quiet fn (validLoans xs) t.state := by
    intro hq
    rw [takeRunBatch_quiet xs { t with handedOut := t.handedOut ++ xs } hq] at hrun
    cases (Prod.mk.inj hrun).2
  refine ⟨hloud, fun hs => ?_⟩
  obtain ⟨t'', e', hrun', hout, hlen⟩ := takeRunBatch_raise xs { t with handedOut := t.handedOut ++ xs } hloud
  rw [hrun] at hrun'
  obtain ⟨rfl, -⟩ := Prod.mk.inj hrun'
  have hafter := hs.unrefs.length_eq
  have hbefore := ht.unrefs.length_eq
  rw [hout] at hafter
  simp only [List.length_map, List.length_append] at hafter hbefore hlen
  omega

theorem settled_of_no_raise {t t' : TakeRun σ} (ht : t.Settled) {xs : List Loan}
    (hrun : takeRunBatch fn xs { t with handedOut := t.handedOut ++ xs } = (t', none)) :
    Quiet fn (validLoans xs) t.state ∧ t'.Settled ∧
      t'.state = (validLoans xs).foldl (fun s x => (fn x.sample.payload s).1) t.state := by
  have hquiet : Quiet fn (validLoans xs) t.state := by
    by_contra hloud
    obtain ⟨t'', e, hrun', -⟩ := takeRunBatch_raise xs { t with handedOut := t.handedOut ++ xs } hloud
    rw [hrun] at hrun'
    cases (Prod.mk.inj hrun').2
  rw [takeRunBatch_quiet xs { t with handedOut := t.handedOut ++ xs } hquiet] at hrun
  obtain ⟨rfl, -⟩ := Prod.mk.inj hrun
  exact ⟨hquiet, ht.batch xs _, rfl⟩

/-- The outer loop, from any point at which the books are balanced. -/
theorem takeRun_settled_iff (fails : ℕ → Option ℤ) (call : ℕ) (queue : List Loan) (takenTotal : ℕ) (t : TakeRun σ)
    (ht : t.Settled) : (Reader.takeRun fails fn call queue takenTotal t).1.Settled ↔
      Quiet fn (validLoans (availableLoans fails call queue)) t.state := by
  induction call, queue, takenTotal, t using Reader.takeRun.induct fails fn with
  | case1 call queue takenTotal t code hcode =>
    rw [Reader.takeRun, availableLoans]
    simp only [hcode]
    exact ⟨fun _ => trivial, fun _ => ht⟩
  | case2 call queue takenTotal t hnone t' e hrun =>
    obtain ⟨hloud, hopen⟩ := not_settled_of_raise ht hrun
    rw [Reader.takeRun, availableLoans]
    simp only [hnone, hrun]
    refine ⟨fun hs => absurd hs hopen, fun hq => absurd ?_ hloud⟩
    split_ifs at hq
    · exact hq
    · rw [validLoans_append, quiet_append] at hq
      exact hq.1
  | case3 call queue takenTotal t hnone t' hrun hlen =>
    obtain ⟨hquiet, hsettled, -⟩ := settled_of_no_raise ht hrun
    rw [Reader.takeRun, availableLoans]
    simp only [hnone, hrun, if_pos hlen]
    exact ⟨fun _ => hquiet, fun _ => hsettled⟩
  | case4 call queue takenTotal t hnone t' hrun hlen ih =>
    obtain ⟨hquiet, hsettled, hstate⟩ := settled_of_no_raise ht hrun
    rw [Reader.takeRun, availableLoans]
    simp only [hnone, hrun, if_neg hlen]
    rw [ih hsettled, validLoans_append, quiet_append, hstate]
    exact ⟨fun h => ⟨hquiet, h⟩, fun h => h.2⟩

theorem takeRunBatch_handedOut (fn : List UInt8 → σ → σ × Option Failure) (xs : List Loan) (t : TakeRun σ) :
    (takeRunBatch fn xs t).1.handedOut = t.handedOut := by
  induction xs generalizing t with
  | nil => rfl
  | cons x xs ih =>
    rw [takeRunBatch]
    split_ifs
    · rcases fn x.sample.payload t.state with ⟨s, _ | e⟩
      · exact ih _
      · rfl
    · exact ih _

theorem handedOut_of_batch {xs : List Loan} {t t' : TakeRun σ} {e : Option Failure}
    (hrun : takeRunBatch fn xs { t with handedOut := t.handedOut ++ xs } = (t', e)) :
    t'.handedOut = t.handedOut ++ xs := by
  have h := takeRunBatch_handedOut fn xs { t with handedOut := t.handedOut ++ xs }
  rw [hrun] at h
  exact h

/-- What was handed out and what is left make up the queue. -/
theorem takeRun_queue (fails : ℕ → Option ℤ) (call : ℕ) (queue : List Loan) (takenTotal : ℕ) (t : TakeRun σ) :
    (Reader.takeRun fails fn call queue takenTotal t).1.handedOut ++
        (Reader.takeRun fails fn call queue takenTotal t).2.1 = t.handedOut ++ queue := by
  induction call, queue, takenTotal, t using Reader.takeRun.induct fails fn with
  | case1 call queue takenTotal t code hcode =>
    rw [Reader.takeRun]
    simp only [hcode]
  | case2 call queue takenTotal t hnone t' e hrun =>
    rw [Reader.takeRun]
    simp only [hnone, hrun]
    rw [handedOut_of_batch hrun, List.append_assoc, List.take_append_drop]
  | case3 call queue takenTotal t hnone t' hrun hlen =>
    rw [Reader.takeRun]
    simp only [hnone, hrun, if_pos hlen]
    rw [handedOut_of_batch hrun, List.append_assoc, List.take_append_drop]
  | case4 call queue takenTotal t hnone t' hrun hlen ih =>
    rw [Reader.takeRun]
    simp only [hnone, hrun, if_neg hlen]
    rw [ih, handedOut_of_batch hrun, List.append_assoc, List.take_append_drop]

theorem takeRunBatch_eq (fn : List UInt8 → σ → σ × Option Failure) (xs : List Loan) (t : TakeRun σ)
    (released : List Sample) :
    ((takeRunBatch fn xs t).1.state, (takeRunBatch fn xs t).2) =
      ((takeSamples fn (xs.map Loan.sample) ⟨t.state, released⟩).1.state,
        (takeSamples fn (xs.map Loan.sample) ⟨t.state, released⟩).2) := by
  induction xs generalizing t released with
  | nil => rfl
  | cons x xs ih =>
    rw [takeRunBatch, List.map_cons, takeSamples]
    split_ifs
    · rcases fn x.sample.payload t.state with ⟨s, _ | e⟩
      · exact ih _ _
      · rfl
    · exact ih _ _

theorem takeSamples_of_run {xs : List Loan} {t t' : TakeRun σ} {e : Option Failure}
    (hrun : takeRunBatch fn xs { t with handedOut := t.handedOut ++ xs } = (t', e)) (released : List Sample) :
    ∃ u, takeSamples fn (xs.map Loan.sample) ⟨t.state, released⟩ = (u, e) ∧ t'.state = u.state := by
  have h := takeRunBatch_eq fn xs { t with handedOut := t.handedOut ++ xs } released
  rw [hrun] at h
  obtain ⟨hstate, herror⟩ := Prod.mk.inj h
  exact ⟨_, Prod.ext rfl herror.symm, hstate⟩

/-- Without transport errors, and without the books, this is the loop that
dispatches subscriptions and services. -/
theorem takeRun_eq_takeAll (call : ℕ) (queue : List Loan) (takenTotal : ℕ) (t : TakeRun σ)
    (released : List Sample) :
    (Reader.takeRun (fun _ => none) fn call queue takenTotal t).1.state =
        (takeAll fn (queue.map Loan.sample) ⟨t.state, released⟩).1.state ∧
      (Reader.takeRun (fun _ => none) fn call queue takenTotal t).2.1.map Loan.sample =
        (takeAll fn (queue.map Loan.sample) ⟨t.state, released⟩).2.1 ∧
      ∀ e, (Reader.takeRun (fun _ => none) fn call queue takenTotal t).2.2 = .error e ↔
        (takeAll fn (queue.map Loan.sample) ⟨t.state, released⟩).2.2 = some e := by
  induction call, queue, takenTotal, t using Reader.takeRun.induct (fun _ => none) fn generalizing released with
  | case1 call queue takenTotal t code hcode => cases hcode
  | case2 call queue takenTotal t hnone t' e hrun =>
    obtain ⟨u, hold, hstate⟩ := takeSamples_of_run hrun released
    rw [Reader.takeRun, takeAll, ← List.map_take]
    simp only [hrun, hold, hstate, List.map_drop]
    simp
  | case3 call queue takenTotal t hnone t' hrun hlen =>
    obtain ⟨u, hold, hstate⟩ := takeSamples_of_run hrun released
    rw [Reader.takeRun, takeAll, ← List.map_take]
    simp only [hrun, hold, hstate, List.map_drop, List.length_map, if_pos hlen]
    simp
  | case4 call queue takenTotal t hnone t' hrun hlen ih =>
    obtain ⟨u, hold, hstate⟩ := takeSamples_of_run hrun released
    rw [Reader.takeRun, takeAll, ← List.map_take]
    simp only [hrun, hold, List.length_map, if_neg hlen, ← List.map_drop]
    have h := ih u.released
    rw [hstate] at h
    exact h

end Take

/-- Every sample is given back and every sample with data is offered exactly when
the callback raises on none of them. -/
theorem take_settled_iff_quiet (fails : ℕ → Option ℤ) (fn : List UInt8 → σ → σ × Option Failure)
    (queue : List Loan) (s : σ) :
    (Reader.takeRun fails fn 0 queue 0 ⟨s, [], [], []⟩).1.handedOut ++
        (Reader.takeRun fails fn 0 queue 0 ⟨s, [], [], []⟩).2.1 = queue ∧
      ((Reader.takeRun fails fn 0 queue 0 ⟨s, [], [], []⟩).1.Settled ↔
        Quiet fn (validLoans (availableLoans fails 0 queue)) s) :=
  ⟨takeRun_queue fails 0 queue 0 _, takeRun_settled_iff fails 0 queue 0 ⟨s, [], [], []⟩ ⟨.nil, rfl⟩⟩

/-- What `poll_rosout` does with a payload. -/
def rosoutCallback : List UInt8 → GraphState → GraphState × Option Failure := forgetful Monitor.onRosout

/-- A malformed payload in front of a whole log message. -/
def malformedFirst : List Loan :=
  [⟨10, ⟨[0, 0], true⟩⟩, ⟨11, ⟨logSchema.encode logSchema.zero, true⟩⟩]

/-- `poll_rosout` raises on the first payload: both samples are gone from the
queue, neither is given back, and the second was never looked at. -/
theorem raising_callback_leaks :
    let r := (Reader.takeRun (fun _ => none) rosoutCallback 0 malformedFirst 0 ⟨Monitor.new, [], [], []⟩).1
    r.handedOut = malformedFirst ∧ r.unrefs = [] ∧ r.offered = malformedFirst.take 1 ∧ ¬ r.Settled := by
  have hrun : Reader.takeRun (fun _ => none) rosoutCallback 0 malformedFirst 0 ⟨Monitor.new, [], [], []⟩ =
      (⟨Monitor.new, malformedFirst, malformedFirst.take 1, []⟩, [],
        .error (.error "CDR buffer too small for encapsulation header")) := by
    rw [Reader.takeRun]
    rfl
  rw [hrun]
  refine ⟨rfl, rfl, rfl, fun h => ?_⟩
  have hlen := h.unrefs.length_eq
  cases hlen

end Rcllite
