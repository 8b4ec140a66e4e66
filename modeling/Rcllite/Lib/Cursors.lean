import Mathlib.Data.List.Basic
import Mathlib.Data.List.Forall2
import Mathlib.Tactic.Common

/-! A writer that lays pieces out behind filler of its own choice, and a reader
that skips filler by another rule. The reader is never behind the writer; where
it has run ahead, only filler can be found. -/
namespace Cursors
variable {α : Type*} {z : α}

/-- A run of items that the writer puts at its next offset and the reader looks
for at its own. `z` is the filler. -/
structure Piece (α : Type*) (z : α) where
  writerPad : ℕ → ℕ
  readerPad : ℕ → ℕ
  items : List α
  Accepts : List α → Prop
  accepts_self : Accepts items
  /-- What is accepted has filler only where the items have it. -/
  reflects : ∀ xs, Accepts xs → List.Forall₂ (fun x b => x = z → b = z) xs items
  ahead : ∀ w r, w ≤ r → w + writerPad w ≤ r + readerPad r

/-- `xs` stands at offset `i` of `data`. -/
def At (data : List α) (i : ℕ) (xs : List α) : Prop :=
  ∃ before after, data = before ++ (xs ++ after) ∧ before.length = i

def layout : List (Piece α z) → ℕ → List α
  | [], _ => []
  | p :: ps, w => List.replicate (p.writerPad w) z ++
      (p.items ++ layout ps (w + p.writerPad w + p.items.length))

/-- The reader gets from offset `r` to offset `r'` and accepts every piece. -/
def Found (data : List α) : List (Piece α z) → ℕ → ℕ → Prop
  | [], r, r' => r' = r
  | p :: ps, r, r' => ∃ xs, At data (r + p.readerPad r) xs ∧ p.Accepts xs ∧
      Found data ps (r + p.readerPad r + xs.length) r'

/-- The cursors end together, and every piece is either read where it was
written or made of filler. -/
def Synced : List (Piece α z) → ℕ → ℕ → Prop
  | [], w, r => r = w
  | p :: ps, w, r => (r + p.readerPad r = w + p.writerPad w ∨ ∀ b ∈ p.items, b = z) ∧
      Synced ps (w + p.writerPad w + p.items.length) (r + p.readerPad r + p.items.length)

/-- Nothing but filler from `i` to `j`. -/
def Blank (z : α) (data : List α) (i j : ℕ) : Prop := ∀ k, i ≤ k → k < j → data[k]? = some z

theorem layout_append (ps qs : List (Piece α z)) (w : ℕ) :
    layout (ps ++ qs) w = layout ps w ++ layout qs (w + (layout ps w).length) := by
  induction ps generalizing w with
  | nil => rfl
  | cons p ps ih =>
    simp only [List.cons_append, layout, List.append_assoc, List.length_append, List.length_replicate, ih,
      Nat.add_assoc]

theorem found_append (data : List α) (ps qs : List (Piece α z)) (r r' : ℕ) :
    Found data (ps ++ qs) r r' ↔ ∃ m, Found data ps r m ∧ Found data qs m r' := by
  induction ps generalizing r with
  | nil =>
    constructor
    · exact fun h => ⟨r, rfl, h⟩
    · rintro ⟨m, rfl, h⟩
      exact h
  | cons p ps ih =>
    constructor
    · rintro ⟨xs, hat, hxs, hrest⟩
      obtain ⟨m, hps, hqs⟩ := (ih _).mp hrest
      exact ⟨m, ⟨xs, hat, hxs, hps⟩, hqs⟩
    · rintro ⟨m, ⟨xs, hat, hxs, hps⟩, hqs⟩
      exact ⟨xs, hat, hxs, (ih _).mpr ⟨m, hps, hqs⟩⟩

theorem At.getElem? {data xs : List α} {i : ℕ} (h : At data i xs) {j : ℕ} (hj : j < xs.length) :
    data[i + j]? = xs[j]? := by
  obtain ⟨before, after, rfl, rfl⟩ := h
  rw [List.getElem?_append_right (by omega), Nat.add_sub_cancel_left, List.getElem?_append_left hj]

theorem At.le {data xs : List α} {i : ℕ} (h : At data i xs) : i + xs.length ≤ data.length := by
  obtain ⟨before, after, rfl, rfl⟩ := h
  simp only [List.length_append]
  omega

/-- A stretch of filler is any run of filler inside it. -/
theorem Blank.at {data xs : List α} {i j k : ℕ} (h : Blank z data i j) (hik : i ≤ k)
    (hkj : k + xs.length ≤ j) (hj : j ≤ data.length) (hxs : ∀ b ∈ xs, b = z) : At data k xs := by
  refine ⟨data.take k, data.drop (k + xs.length), ?_, ?_⟩
  · have hmid : (data.drop k).take xs.length = xs := by
      apply List.ext_getElem?
      intro m
      by_cases hm : m < xs.length
      · rw [List.getElem?_take_of_lt hm, List.getElem?_drop, h (k + m) (by omega) (by omega),
          List.getElem?_eq_getElem hm, hxs _ (List.getElem_mem hm)]
      · rw [List.getElem?_eq_none (by rw [List.length_take]; omega), List.getElem?_eq_none (by omega)]
    rw [← hmid, List.length_take, List.length_drop, Nat.min_eq_left (by omega), ← List.drop_drop,
      List.take_append_drop, List.take_append_drop]
  · rw [List.length_take]
    omega

section Cons
variable {p : Piece α z} {ps : List (Piece α z)} {pre t : List α}

/-- The whole stream, seen from before and from behind the first piece. -/
theorem stream_cons : pre ++ (layout (p :: ps) pre.length ++ t) =
    (pre ++ (List.replicate (p.writerPad pre.length) z ++ p.items)) ++
      (layout ps (pre ++ (List.replicate (p.writerPad pre.length) z ++ p.items)).length ++ t) := by
  simp only [layout, List.append_assoc, List.length_append, List.length_replicate, Nat.add_assoc]

theorem stream_length : (pre ++ (List.replicate (p.writerPad pre.length) z ++ p.items)).length =
    pre.length + p.writerPad pre.length + p.items.length := by
  simp only [List.length_append, List.length_replicate, Nat.add_assoc]

/-- After a piece the reader is still not behind the writer. -/
theorem stream_le {r : ℕ} (hr : pre.length ≤ r) :
    (pre ++ (List.replicate (p.writerPad pre.length) z ++ p.items)).length ≤
      r + p.readerPad r + p.items.length := by
  have hahead := p.ahead _ _ hr
  rw [stream_length]
  omega

theorem stream_end :
    (pre ++ (List.replicate (p.writerPad pre.length) z ++ p.items)).length +
        (layout ps (pre ++ (List.replicate (p.writerPad pre.length) z ++ p.items)).length).length =
      pre.length + (layout (p :: ps) pre.length).length := by
  rw [stream_length, layout]
  simp only [List.length_append, List.length_replicate]
  omega

theorem at_items : At (pre ++ (layout (p :: ps) pre.length ++ t)) (pre.length + p.writerPad pre.length) p.items := by
  refine ⟨pre ++ List.replicate (p.writerPad pre.length) z,
    layout ps (pre.length + p.writerPad pre.length + p.items.length) ++ t, ?_, ?_⟩
  · rw [layout]
    simp only [List.append_assoc]
  · rw [List.length_append, List.length_replicate]

theorem blank_pad : Blank z (pre ++ (layout (p :: ps) pre.length ++ t)) pre.length
    (pre.length + p.writerPad pre.length) := by
  intro k hk hlt
  have hat : At (pre ++ (layout (p :: ps) pre.length ++ t)) pre.length
      (List.replicate (p.writerPad pre.length) z) :=
    ⟨pre, p.items ++ (layout ps (pre.length + p.writerPad pre.length + p.items.length) ++ t),
      by simp only [layout, List.append_assoc], rfl⟩
  have hin : k - pre.length < (List.replicate (p.writerPad pre.length) z).length := by
    rw [List.length_replicate]
    omega
  have hget := hat.getElem? hin
  rw [Nat.add_sub_cancel' hk] at hget
  rw [hget, List.getElem?_eq_getElem hin, List.getElem_replicate]

end Cons

theorem Blank.trans {data : List α} {i j k : ℕ} (h : Blank z data i j) (h' : Blank z data j k) :
    Blank z data i k := by
  intro m hi hk
  by_cases hm : m < j
  · exact h m hi hm
  · exact h' m (by omega) hk

theorem At.blank {data xs : List α} {i : ℕ} (h : At data i xs) (hxs : ∀ b ∈ xs, b = z) :
    Blank z data i (i + xs.length) := by
  intro k hk hlt
  have hin : k - i < xs.length := by omega
  have hget := h.getElem? hin
  rw [Nat.add_sub_cancel' hk] at hget
  rw [hget, List.getElem?_eq_getElem hin, hxs _ (List.getElem_mem hin)]

theorem Blank.mono {data : List α} {i j k : ℕ} (h : Blank z data i k) (hjk : j ≤ k) : Blank z data i j :=
  fun m hi hj => h m hi (by omega)

/-- A piece that overlaps its own image in a stream of filler is filler: from its
last item down, each one is compared with filler further on. -/
theorem filler_of_shifted {data items xs : List α} {w r : ℕ} (hw : At data w items) (hr : At data r xs)
    (hlt : w < r) (hxs : List.Forall₂ (fun x b => x = z → b = z) xs items)
    (hblank : Blank z data (w + items.length) (r + items.length)) : ∀ b ∈ items, b = z := by
  have hlen : xs.length = items.length := hxs.length_eq
  have hdown : ∀ n j (hj : j < items.length), items.length - j ≤ n → items[j] = z := by
    intro n
    induction n with
    | zero => omega
    | succ n ih =>
      intro j hj hn
      have hx : xs[j]? = some z := by
        rw [← hr.getElem? (by omega)]
        by_cases hin : j + (r - w) < items.length
        · have hsame : r + j = w + (j + (r - w)) := by omega
          rw [hsame, hw.getElem? hin, List.getElem?_eq_getElem hin, ih _ hin (by omega)]
        · exact hblank (r + j) (by omega) (by omega)
      have hj' : j < xs.length := by omega
      rw [List.getElem?_eq_getElem hj', Option.some.injEq] at hx
      exact (List.forall₂_iff_get.mp hxs).2 j hj' hj hx
  intro b hb
  obtain ⟨j, hj, rfl⟩ := List.getElem_of_mem hb
  exact hdown items.length j hj (Nat.sub_le _ _)

/-- Cursors that are going to meet again have only filler between them. -/
theorem Synced.blank (ps : List (Piece α z)) (pre t : List α) {r : ℕ} (hr : pre.length ≤ r)
    (h : Synced ps pre.length r) : Blank z (pre ++ (layout ps pre.length ++ t)) pre.length r := by
  induction ps generalizing pre r with
  | nil =>
    cases h
    intro k hk hlt
    omega
  | cons p ps ih =>
    obtain ⟨hhere, hrest⟩ := h
    have hahead := p.ahead _ _ hr
    rcases hhere with hsame | hzero
    · exact blank_pad.mono (by omega)
    · rw [← stream_length] at hrest
      have hnext := ih _ (stream_le hr) hrest
      rw [← stream_cons, stream_length] at hnext
      exact ((blank_pad.trans (at_items.blank hzero)).trans hnext).mono (by omega)

theorem Synced.le_length (ps : List (Piece α z)) (pre t : List α) {r : ℕ} (hr : pre.length ≤ r)
    (h : Synced ps pre.length r) : r ≤ (pre ++ (layout ps pre.length ++ t)).length := by
  by_cases heq : r = pre.length
  · rw [List.length_append]
    omega
  · have hlast := h.blank ps pre t hr (r - 1) (by omega) (by omega)
    have := (List.getElem?_eq_some_iff.mp hlast).1
    omega

theorem Synced.found (ps : List (Piece α z)) (pre t : List α) {r : ℕ} (hr : pre.length ≤ r)
    (h : Synced ps pre.length r) :
    Found (pre ++ (layout ps pre.length ++ t)) ps r (pre.length + (layout ps pre.length).length) := by
  induction ps generalizing pre r with
  | nil =>
    cases h
    rfl
  | cons p ps ih =>
    obtain ⟨hhere, hrest⟩ := h
    have hahead := p.ahead _ _ hr
    have hle := @stream_le α z p pre r hr
    rw [← stream_length] at hrest
    have hnext := ih _ hle hrest
    rw [← stream_cons, stream_end] at hnext
    refine ⟨p.items, ?_, p.accepts_self, hnext⟩
    rcases hhere with hsame | hzero
    · rw [hsame]
      exact at_items
    · have hblank := hrest.blank ps _ t hle
      have hlen := hrest.le_length ps _ t hle
      rw [← stream_cons] at hlen hblank
      rw [stream_length] at hblank
      exact ((blank_pad.trans (at_items.blank hzero)).trans hblank).at (by omega) (Nat.le_refl _) hlen hzero

theorem Found.synced (ps : List (Piece α z)) (pre t : List α) {r : ℕ} (hr : pre.length ≤ r)
    (h : Found (pre ++ (layout ps pre.length ++ t)) ps r (pre.length + (layout ps pre.length).length)) :
    Synced ps pre.length r := by
  induction ps generalizing pre r with
  | nil => exact h.symm
  | cons p ps ih =>
    obtain ⟨xs, hat, hxs, hrest⟩ := h
    have hlen : xs.length = p.items.length := (p.reflects xs hxs).length_eq
    have hahead := p.ahead _ _ hr
    have hle := @stream_le α z p pre r hr
    rw [hlen, stream_cons, ← stream_end] at hrest
    have hsync := ih _ hle hrest
    refine ⟨?_, by rw [← stream_length]; exact hsync⟩
    by_cases hsame : r + p.readerPad r = pre.length + p.writerPad pre.length
    · exact .inl hsame
    · right
      have hblank := hsync.blank ps _ t hle
      rw [← stream_cons, stream_length] at hblank
      exact filler_of_shifted at_items hat (by omega) (p.reflects xs hxs) hblank

/-- Pieces in front of which both skip alike keep the cursors together. -/
theorem synced_append_of_even {ps qs : List (Piece α z)} (h : ∀ p ∈ ps, p.readerPad = p.writerPad) {w : ℕ}
    (hqs : ∀ w, Synced qs w w) : Synced (ps ++ qs) w w := by
  induction ps generalizing w with
  | nil => exact hqs w
  | cons p ps ih =>
    have hp := h p List.mem_cons_self
    have hps := ih (w := w + p.writerPad w + p.items.length) (fun q hq => h q (List.mem_cons_of_mem p hq))
    refine ⟨.inl (by rw [hp]), ?_⟩
    rw [hp]
    exact hps

theorem synced_of_even {ps : List (Piece α z)} (h : ∀ p ∈ ps, p.readerPad = p.writerPad) (w : ℕ) :
    Synced ps w w := by
  have hall : Synced (ps ++ []) w w := synced_append_of_even h (fun _ => rfl)
  rwa [List.append_nil] at hall

/-- The reader finds everything, and ends where the writer ended, exactly when
the cursors are synchronised. -/
theorem found_iff_synced (ps : List (Piece α z)) (pre t : List α) {r : ℕ} (hr : pre.length ≤ r) :
    Found (pre ++ (layout ps pre.length ++ t)) ps r (pre.length + (layout ps pre.length).length) ↔
      Synced ps pre.length r :=
  ⟨Found.synced ps pre t hr, Synced.found ps pre t hr⟩

end Cursors
