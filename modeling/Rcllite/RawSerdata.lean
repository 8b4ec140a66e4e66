import Rcllite.ServiceHeader

/-! The three ways a `RawSerdata` gets its payload: from a chain of fragments,
from a scatter list and from one blob. The destination is an explicit buffer
with a write cursor, and a copy that leaves it, or leaves its source, is a
fault. -/
namespace Rcllite

/-- What undefined behaviour a `memcpy` would run into. -/
inductive MemoryFault where
  | readOutside
  | writeOutside
deriving DecidableEq, Repr

/-- `nn_rdata`: the bytes `[min, maxp1)` of a sample, found at the start of
`payload` in the message that brought them. -/
structure Fragment where
  min : BitVec 32
  maxp1 : BitVec 32
  payload : List UInt8
deriving DecidableEq, Repr

/-- `raw_resize`: the payload as `assign` leaves it. The sum is a `size_t`. -/
def rawBuffer (requested : ℕ) : List UInt8 := List.replicate ((requested + rawPad requested) % 2^64) 0

/-- The size reported to DDS, cast from `size_t`. -/
def rawSize (payload : List UInt8) : BitVec 32 := BitVec.ofNat 32 payload.length

/-- `memcpy(cursor, src, ...)` into a buffer. -/
def copyAt (buf : List UInt8) (cursor : ℕ) (src : List UInt8) : Except MemoryFault (List UInt8) :=
  if cursor + src.length ≤ buf.length then
    .ok (buf.take cursor ++ (src ++ buf.drop (cursor + src.length)))
  else .error .writeOutside

/-- The locals of the reassembly loop; `cursor` counts from `payload.data()`. -/
structure Reassembly where
  off : BitVec 32
  cursor : ℕ
  payload : List UInt8
deriving DecidableEq, Repr

/-- One pass of the loop: the part of the fragment behind `off` is appended,
read at `payload + off - min`. -/
def Reassembly.add (s : Reassembly) (f : Fragment) : Except MemoryFault Reassembly :=
  if f.maxp1 > s.off then
    let nBytes := (f.maxp1 - s.off).toNat
    if s.off < f.min ∨ f.payload.length < s.off.toNat - f.min.toNat + nBytes then .error .readOutside
    else do
      let src := (f.payload.drop (s.off.toNat - f.min.toNat)).take nBytes
      let payload ← copyAt s.payload s.cursor src
      pure ⟨f.maxp1, s.cursor + nBytes, payload⟩
  else .ok s

def Reassembly.addAll : List Fragment → Reassembly → Except MemoryFault Reassembly
  | [], s => .ok s
  | f :: rest, s =>
    match s.add f with
    | .ok s' => addAll rest s'
    | .error e => .error e

/-- A null pointer is `none`; it is returned when the serdata or its payload
cannot be allocated. -/
def rawFromSer (allocated : Bool) (fragchain : List Fragment) (size : ℕ) :
    Except MemoryFault (Option (List UInt8)) :=
  if allocated then
    (Reassembly.addAll fragchain ⟨0, 0, rawBuffer size⟩).map (fun s => some s.payload)
  else .ok none

/-- Each entry of the scatter list is the `iov_len` bytes at its `iov_base`. -/
def copyIov : List (List UInt8) → ℕ → List UInt8 → Except MemoryFault (List UInt8)
  | [], _, payload => .ok payload
  | v :: iov, cursor, payload =>
    match copyAt payload cursor v with
    | .ok payload' => copyIov iov (cursor + v.length) payload'
    | .error e => .error e

def rawFromSerIov (allocated : Bool) (iov : List (List UInt8)) (size : ℕ) :
    Except MemoryFault (Option (List UInt8)) :=
  if allocated then (copyIov iov 0 (rawBuffer size)).map some else .ok none

/-- `iovLenBits` is the width of `ddsrt_iov_len_t`, which the platform decides. -/
def rawSerdataFromBlob (iovLenBits : ℕ) (allocated : Bool) (blob : List UInt8) :
    Except MemoryFault (Option (List UInt8)) :=
  if blob.length % 2^iovLenBits ≠ blob.length then .ok none
  else rawFromSerIov allocated [blob] blob.length

/-- `(-size) mod 4`, although the code subtracts in 32 bits. -/
theorem rawPad_eq (requested : ℕ) : rawPad requested = (4 - requested % 4) % 4 := by
  unfold rawPad
  omega

/-- The buffer for a sample of which the first `m` bytes are in place. -/
def filled (sample : List UInt8) (m : ℕ) : List UInt8 :=
  sample.take m ++ List.replicate (sample.length + rawPad sample.length - m) 0

theorem rawBuffer_eq {requested : ℕ} (h : requested + 4 ≤ 2^64) :
    rawBuffer requested = List.replicate (requested + rawPad requested) 0 := by
  have hpad := rawPad_eq requested
  rw [rawBuffer, Nat.mod_eq_of_lt (by omega)]

theorem filled_zero {sample : List UInt8} (h : sample.length + 4 ≤ 2^64) :
    filled sample 0 = rawBuffer sample.length := by
  rw [rawBuffer_eq h]
  rfl

theorem filled_length (sample : List UInt8) : filled sample sample.length = rawResize sample := by
  rw [filled, rawResize, List.take_length, Nat.add_sub_cancel_left]

/-- Copying the bytes `[m, e)` of the sample to index `m`. -/
theorem copyAt_filled (sample : List UInt8) {m e : ℕ} (hm : m ≤ e) (he : e ≤ sample.length) :
    copyAt (filled sample m) m ((sample.drop m).take (e - m)) = .ok (filled sample e) := by
  have hdone : (sample.take m).length = m := by
    rw [List.length_take]
    omega
  have hsrc : ((sample.drop m).take (e - m)).length = e - m := by
    rw [List.length_take, List.length_drop]
    omega
  have hfit : m + ((sample.drop m).take (e - m)).length ≤ (filled sample m).length := by
    rw [filled, List.length_append, List.length_replicate, hdone, hsrc]
    omega
  have hrest : sample.length + rawPad sample.length - m - (e - m) =
      sample.length + rawPad sample.length - e := by omega
  have htake : sample.take m ++ (sample.drop m).take (e - m) = sample.take e := by
    rw [← List.take_add, Nat.add_sub_cancel' hm]
  rw [copyAt, if_pos hfit, hsrc, filled, List.take_left' hdone, ← List.drop_drop, List.drop_left' hdone,
    List.drop_replicate, hrest, ← List.append_assoc, htake, filled]

section Fragments
variable (sample : List UInt8)

/-- The largest `maxp1` of a chain, zero for an empty one. -/
def highWater (chain : List Fragment) : ℕ := chain.foldl (fun m f => max m f.maxp1.toNat) 0

/-- What is handed to `from_ser`: every fragment carries its bytes of the
sample, none that reaches further than all before it leaves a gap, and the
last byte is there. -/
structure CarriesSample (chain : List Fragment) : Prop where
  bytes : ∀ f ∈ chain, (sample.drop f.min.toNat).take (f.maxp1.toNat - f.min.toNat) <+: f.payload
  no_gap : ∀ before f after, chain = before ++ f :: after → highWater before < f.maxp1.toNat →
    f.min.toNat ≤ highWater before
  complete : highWater chain = sample.length

/-- The first `m` bytes are in place, and both positions say so. -/
structure Reassembly.Holds (m : ℕ) (s : Reassembly) : Prop where
  off_eq : s.off.toNat = m
  cursor_eq : s.cursor = m
  payload_eq : s.payload = filled sample m

theorem highWater_append (before : List Fragment) (f : Fragment) :
    highWater (before ++ [f]) = max (highWater before) f.maxp1.toNat := by
  simp [highWater, List.foldl_append]

theorem highWater_mono (before after : List Fragment) : highWater before ≤ highWater (before ++ after) := by
  induction after generalizing before with
  | nil => simp
  | cons f after ih =>
    have h := ih (before ++ [f])
    rw [highWater_append, List.append_assoc] at h
    calc
      highWater before ≤ max (highWater before) f.maxp1.toNat := le_max_left _ _
      _ ≤ highWater (before ++ ([f] ++ after)) := h

variable {sample}

/-- The bytes a fragment contributes, as they stand in its payload. -/
theorem fragment_slice {f : Fragment} {m : ℕ}
    (hbytes : (sample.drop f.min.toNat).take (f.maxp1.toNat - f.min.toNat) <+: f.payload)
    (hmin : f.min.toNat ≤ m) (hm : m ≤ f.maxp1.toNat) (hend : f.maxp1.toNat ≤ sample.length) :
    (f.payload.drop (m - f.min.toNat)).take (f.maxp1.toNat - m) = (sample.drop m).take (f.maxp1.toNat - m) := by
  obtain ⟨t, ht⟩ := hbytes
  have hlen : ((sample.drop f.min.toNat).take (f.maxp1.toNat - f.min.toNat)).length =
      f.maxp1.toNat - f.min.toNat := by
    rw [List.length_take, List.length_drop]
    omega
  have hlen' : (((sample.drop f.min.toNat).take (f.maxp1.toNat - f.min.toNat)).drop (m - f.min.toNat)).length =
      f.maxp1.toNat - m := by
    rw [List.length_drop, hlen]
    omega
  have hdrop : f.min.toNat + (m - f.min.toNat) = m := by omega
  have htake : f.maxp1.toNat - f.min.toNat - (m - f.min.toNat) = f.maxp1.toNat - m := by omega
  rw [← ht, List.drop_append_of_le_length (by omega), List.take_left' hlen', List.drop_take, List.drop_drop,
    hdrop, htake]

/-- One fragment moves the mark to its end, or leaves everything as it is. -/
theorem Reassembly.Holds.add {m : ℕ} {s : Reassembly} (hs : s.Holds sample m) {f : Fragment}
    (hbytes : (sample.drop f.min.toNat).take (f.maxp1.toNat - f.min.toNat) <+: f.payload)
    (hgap : m < f.maxp1.toNat → f.min.toNat ≤ m) (hend : f.maxp1.toNat ≤ sample.length) :
    ∃ s', s.add f = .ok s' ∧ s'.Holds sample (max m f.maxp1.toNat) := by
  obtain ⟨hoff, hcursor, hpayload⟩ := hs
  by_cases hnew : m < f.maxp1.toNat
  · have hmin := hgap hnew
    have hgt : f.maxp1 > s.off := by
      change s.off.toNat < f.maxp1.toNat
      omega
    have hn : (f.maxp1 - s.off).toNat = f.maxp1.toNat - m := by
      rw [BitVec.toNat_sub_of_le (BitVec.le_of_lt hgt), hoff]
    have hlen : f.maxp1.toNat - f.min.toNat ≤ f.payload.length := by
      have h := hbytes.length_le
      rw [List.length_take, List.length_drop] at h
      omega
    have hinside : ¬ (s.off < f.min ∨ f.payload.length < m - f.min.toNat + (f.maxp1.toNat - m)) := by
      rintro (hlt | hlt)
      · change s.off.toNat < f.min.toNat at hlt
        omega
      · omega
    refine ⟨⟨f.maxp1, m + (f.maxp1.toNat - m), filled sample f.maxp1.toNat⟩, ?_, ?_⟩
    · rw [Reassembly.add, if_pos hgt]
      simp only [hn, hoff, hpayload, hcursor, fragment_slice hbytes hmin hnew.le hend]
      rw [if_neg hinside, copyAt_filled sample hnew.le hend]
      rfl
    · rw [max_eq_right hnew.le]
      exact ⟨rfl, Nat.add_sub_cancel' hnew.le, rfl⟩
  · have hold : ¬ f.maxp1 > s.off := by
      change ¬ s.off.toNat < f.maxp1.toNat
      omega
    rw [max_eq_left (not_lt.mp hnew)]
    exact ⟨s, if_neg hold, hoff, hcursor, hpayload⟩

/-- The loop over the rest of a chain, the invariant carried from the part
already processed. -/
theorem Reassembly.Holds.addAll {chain : List Fragment} (h : CarriesSample sample chain) (after : List Fragment)
    (before : List Fragment) (hchain : chain = before ++ after) {s : Reassembly}
    (hs : s.Holds sample (highWater before)) :
    ∃ s', Reassembly.addAll after s = .ok s' ∧ s'.Holds sample (highWater chain) := by
  induction after generalizing before s with
  | nil =>
    rw [List.append_nil] at hchain
    exact ⟨s, rfl, hchain ▸ hs⟩
  | cons f after ih =>
    have hsplit : chain = (before ++ [f]) ++ after := by rw [hchain, List.append_assoc, List.singleton_append]
    have hend : f.maxp1.toNat ≤ sample.length := by
      have hmono := highWater_mono (before ++ [f]) after
      rw [← hsplit, h.complete, highWater_append] at hmono
      calc
        f.maxp1.toNat ≤ max (highWater before) f.maxp1.toNat := le_max_right _ _
        _ ≤ sample.length := hmono
    have hmem : f ∈ chain := by rw [hchain]; simp
    obtain ⟨s', hadd, hs'⟩ := hs.add (h.bytes f hmem) (h.no_gap before f after hchain) hend
    rw [← highWater_append] at hs'
    obtain ⟨s'', hall, hs''⟩ := ih (before ++ [f]) hsplit hs'
    refine ⟨s'', ?_, hs''⟩
    rw [Reassembly.addAll, hadd]
    exact hall

theorem rawFromSer_eq {chain : List Fragment} (h : CarriesSample sample chain)
    (hsize : sample.length + 4 ≤ 2^64) (allocated : Bool) :
    rawFromSer allocated chain sample.length = .ok (if allocated then some (rawResize sample) else none) := by
  cases allocated with
  | false => rfl
  | true =>
    have hstart : Reassembly.Holds sample (highWater []) ⟨0, 0, rawBuffer sample.length⟩ :=
      ⟨rfl, rfl, (filled_zero hsize).symm⟩
    obtain ⟨s, hall, hs⟩ := hstart.addAll h chain [] rfl
    rw [h.complete] at hs
    rw [rawFromSer, if_pos rfl, hall, if_pos rfl, ← filled_length, ← hs.payload_eq]
    rfl

end Fragments

section Iov
variable {sample : List UInt8}

/-- The scatter list behind the bytes already copied. -/
theorem copyIov_filled (iov : List (List UInt8)) (m : ℕ) (hm : m ≤ sample.length)
    (hrest : iov.flatten = sample.drop m) : copyIov iov m (filled sample m) = .ok (rawResize sample) := by
  induction iov generalizing m with
  | nil =>
    have hlen := congrArg List.length hrest
    rw [List.flatten_nil, List.length_nil, List.length_drop] at hlen
    rw [copyIov, show m = sample.length by omega, filled_length]
  | cons v iov ih =>
    rw [List.flatten_cons] at hrest
    have hlen := congrArg List.length hrest
    rw [List.length_append, List.length_drop] at hlen
    have hv : (sample.drop m).take (m + v.length - m) = v := by
      rw [← hrest, Nat.add_sub_cancel_left, List.take_left]
    have hcopy := copyAt_filled sample (Nat.le_add_right m v.length) (by omega)
    rw [hv] at hcopy
    rw [copyIov, hcopy]
    refine ih (m + v.length) (by omega) ?_
    rw [← List.drop_drop, ← hrest, List.drop_left]

theorem rawFromSerIov_eq {iov : List (List UInt8)} (h : iov.flatten = sample)
    (hsize : sample.length + 4 ≤ 2^64) (allocated : Bool) :
    rawFromSerIov allocated iov sample.length = .ok (if allocated then some (rawResize sample) else none) := by
  cases allocated with
  | false => rfl
  | true =>
    have hcopy := copyIov_filled iov 0 (Nat.zero_le sample.length) h
    rw [filled_zero hsize] at hcopy
    rw [rawFromSerIov, if_pos rfl, hcopy]
    rfl

end Iov

/-- The three constructors agree: the sample, padded with zeros to a multiple of
four, with no read outside a fragment and no write outside the payload. -/
theorem raw_payload_is_padded_sample (sample : List UInt8) (hsize : sample.length < 2^32 - 3)
    (allocated : Bool) :
    (∀ chain, CarriesSample sample chain →
      rawFromSer allocated chain sample.length =
        .ok (if allocated then some (sample ++ List.replicate ((4 - sample.length % 4) % 4) 0) else none)) ∧
    (∀ iov : List (List UInt8), iov.flatten = sample →
      rawFromSerIov allocated iov sample.length =
        .ok (if allocated then some (sample ++ List.replicate ((4 - sample.length % 4) % 4) 0) else none)) ∧
    ∀ iovLenBits, 32 ≤ iovLenBits →
      rawSerdataFromBlob iovLenBits allocated sample =
        .ok (if allocated then some (sample ++ List.replicate ((4 - sample.length % 4) % 4) 0) else none) := by
  have hpadded : rawResize sample = sample ++ List.replicate ((4 - sample.length % 4) % 4) 0 := by
    rw [rawResize, rawPad_eq]
  rw [← hpadded]
  have hfits : sample.length + 4 ≤ 2^64 := by omega
  refine ⟨fun chain h => rawFromSer_eq h hfits allocated, fun iov h => rawFromSerIov_eq h hfits allocated,
    fun iovLenBits hbits => ?_⟩
  have hpow : 2^32 ≤ 2^iovLenBits := Nat.pow_le_pow_right (by decide) hbits
  have hkept : ¬ sample.length % 2^iovLenBits ≠ sample.length := by
    rw [not_not]
    exact Nat.mod_eq_of_lt (by omega)
  rw [rawSerdataFromBlob, if_neg hkept]
  exact rawFromSerIov_eq List.flatten_singleton hfits allocated

/-- Five bytes in three fragments, the second inside the first and the third
overlapping it; the third one's message goes on behind its data. -/
def overlappingChain : List Fragment :=
  [⟨0, 3, [1, 2, 3]⟩, ⟨1, 2, [2]⟩, ⟨2, 5, [3, 4, 5, 99]⟩]

theorem overlappingChain_carries : CarriesSample [1, 2, 3, 4, 5] overlappingChain where
  bytes := by decide
  complete := by decide
  no_gap := by
    intro before f after h hlt
    rcases before with _ | ⟨a, _ | ⟨b, _ | ⟨c, before⟩⟩⟩ <;>
      simp only [overlappingChain, List.nil_append, List.cons_append, List.cons.injEq] at h
    · obtain ⟨rfl, -⟩ := h
      decide
    · obtain ⟨rfl, rfl, -⟩ := h
      exact absurd hlt (by decide)
    · obtain ⟨rfl, rfl, rfl, -⟩ := h
      decide
    · simp at h

theorem raw_payload_is_padded_sample_overlapping :
    rawFromSer true overlappingChain 5 = .ok (some [1, 2, 3, 4, 5, 0, 0, 0]) ∧
    rawSerdataFromBlob 64 true [1, 2, 3, 4, 5] = .ok (some [1, 2, 3, 4, 5, 0, 0, 0]) :=
  ⟨(raw_payload_is_padded_sample [1, 2, 3, 4, 5] (by decide) true).1 _ overlappingChain_carries,
    (raw_payload_is_padded_sample [1, 2, 3, 4, 5] (by decide) true).2.2 64 (by decide)⟩

section Size

theorem copyAt_length {buf src out : List UInt8} {cursor : ℕ} (h : copyAt buf cursor src = .ok out) :
    out.length = buf.length := by
  unfold copyAt at h
  split_ifs at h with hfit
  cases h
  simp only [List.length_append, List.length_take, List.length_drop]
  omega

theorem Reassembly.add_length {s s' : Reassembly} {f : Fragment} (h : s.add f = .ok s') :
    s'.payload.length = s.payload.length := by
  simp only [Reassembly.add] at h
  split_ifs at h with hnew
  · cases hcopy : copyAt s.payload s.cursor
      ((f.payload.drop (s.off.toNat - f.min.toNat)).take (f.maxp1 - s.off).toNat) with
    | error e => rw [hcopy] at h; cases h
    | ok payload =>
      rw [hcopy] at h
      cases h
      exact copyAt_length hcopy
  · cases h
    rfl

theorem Reassembly.addAll_length (chain : List Fragment) {s s' : Reassembly}
    (h : Reassembly.addAll chain s = .ok s') : s'.payload.length = s.payload.length := by
  induction chain generalizing s with
  | nil =>
    cases h
    rfl
  | cons f rest ih =>
    rw [Reassembly.addAll] at h
    cases hadd : s.add f with
    | error e => rw [hadd] at h; cases h
    | ok t =>
      rw [hadd] at h
      rw [ih h, Reassembly.add_length hadd]

theorem copyIov_length (iov : List (List UInt8)) {cursor : ℕ} {payload out : List UInt8}
    (h : copyIov iov cursor payload = .ok out) : out.length = payload.length := by
  induction iov generalizing cursor payload with
  | nil =>
    cases h
    rfl
  | cons v iov ih =>
    rw [copyIov] at h
    cases hcopy : copyAt payload cursor v with
    | error e => rw [hcopy] at h; cases h
    | ok payload' =>
      rw [hcopy] at h
      rw [ih h, copyAt_length hcopy]

theorem rawFromSer_length {allocated : Bool} {chain : List Fragment} {size : ℕ} {payload : List UInt8}
    (h : rawFromSer allocated chain size = .ok (some payload)) :
    payload.length = (size + rawPad size) % 2^64 := by
  cases allocated with
  | false => cases h
  | true =>
    rw [rawFromSer, if_pos rfl] at h
    cases hall : Reassembly.addAll chain ⟨0, 0, rawBuffer size⟩ with
    | error e => rw [hall] at h; cases h
    | ok s =>
      rw [hall] at h
      cases h
      rw [Reassembly.addAll_length chain hall, rawBuffer, List.length_replicate]

theorem rawFromSerIov_length {allocated : Bool} {iov : List (List UInt8)} {size : ℕ} {payload : List UInt8}
    (h : rawFromSerIov allocated iov size = .ok (some payload)) :
    payload.length = (size + rawPad size) % 2^64 := by
  cases allocated with
  | false => cases h
  | true =>
    rw [rawFromSerIov, if_pos rfl] at h
    cases hcopy : copyIov iov 0 (rawBuffer size) with
    | error e => rw [hcopy] at h; cases h
    | ok out =>
      rw [hcopy] at h
      cases h
      rw [copyIov_length iov hcopy, rawBuffer, List.length_replicate]

/-- The serdata that come out for a given size, on either width of
`ddsrt_iov_len_t`. -/
inductive RawBuilt : ℕ → List UInt8 → Prop
  | blob {iovLenBits : ℕ} {allocated : Bool} {blob payload : List UInt8}
      (hbits : iovLenBits = 32 ∨ iovLenBits = 64)
      (h : rawSerdataFromBlob iovLenBits allocated blob = .ok (some payload)) : RawBuilt blob.length payload
  | ser {allocated : Bool} {fragchain : List Fragment} {size : ℕ} {payload : List UInt8}
      (h : rawFromSer allocated fragchain size = .ok (some payload)) : RawBuilt size payload

/-- Copying never changes the length `raw_resize` chose. -/
theorem RawBuilt.length_eq {size : ℕ} {payload : List UInt8} (h : RawBuilt size payload) :
    payload.length = (size + rawPad size) % 2^64 := by
  cases h with
  | @blob iovLenBits allocated blob _ _ h =>
    unfold rawSerdataFromBlob at h
    split_ifs at h with hwidth
    · cases h
    · exact rawFromSerIov_length h
  | ser h => exact rawFromSer_length h

/-- What the size operation owes DDS for a sample of the given size. -/
def ReportsPayloadSize (size : ℕ) (payload : List UInt8) : Prop :=
  (rawSize payload).toNat = payload.length ∧ IsLeast {n | 4 ∣ n ∧ size ≤ n} payload.length

theorem padded_isLeast (size : ℕ) : IsLeast {n | 4 ∣ n ∧ size ≤ n} (size + rawPad size) := by
  have hpad := rawPad_eq size
  constructor
  · refine ⟨?_, Nat.le_add_right _ _⟩
    omega
  · rintro n ⟨hdvd, hle⟩
    omega

/-- The reported size is right up to the last multiple of four in 32 bits. -/
theorem raw_size_is_payload_size_iff {size : ℕ} (hsize : size < 2^64) {payload : List UInt8}
    (h : RawBuilt size payload) : ReportsPayloadSize size payload ↔ size ≤ 2^32 - 4 := by
  have hpad := rawPad_eq size
  have hlen := h.length_eq
  have hcast : (rawSize payload).toNat = payload.length % 2^32 := by rw [rawSize, BitVec.toNat_ofNat]
  constructor
  · -- from `2^64 - 3` on the padded size wraps to zero, which is not even the size asked for
    rintro ⟨hreport, ⟨-, hle⟩, -⟩
    omega
  · intro hle
    have hexact : payload.length = size + rawPad size := by omega
    refine ⟨by omega, ?_⟩
    rw [hexact]
    exact padded_isLeast size

theorem raw_size_is_payload_size_iff_five :
    RawBuilt 5 [1, 2, 3, 4, 5, 0, 0, 0] ∧ ReportsPayloadSize 5 [1, 2, 3, 4, 5, 0, 0, 0] := by
  have hbuilt : RawBuilt 5 [1, 2, 3, 4, 5, 0, 0, 0] :=
    @RawBuilt.blob 32 true [1, 2, 3, 4, 5] _ (.inl rfl) (by decide)
  exact ⟨hbuilt, (raw_size_is_payload_size_iff (by decide) hbuilt).mpr (by decide)⟩

/-- The width check lets a blob of `2^32 - 3` bytes pass, and padding takes it to
`2^32` bytes, reported as zero. -/
theorem four_gigabyte_blob_reported_empty :
    ∃ blob payload, rawSerdataFromBlob 32 true blob = .ok (some payload) ∧ blob.length = 2^32 - 3 ∧
      rawSize payload = 0 ∧ ¬ ReportsPayloadSize blob.length payload := by
  obtain ⟨blob, hlen⟩ : ∃ blob : List UInt8, blob.length = 2^32 - 3 :=
    ⟨List.replicate (2^32 - 3) 0, List.length_replicate⟩
  have hblob : rawSerdataFromBlob 32 true blob = .ok (some (rawResize blob)) := by
    have hkept : ¬ blob.length % 2^32 ≠ blob.length := by omega
    rw [rawSerdataFromBlob, if_neg hkept]
    exact rawFromSerIov_eq List.flatten_singleton (by omega) true
  have hsize : (rawResize blob).length = 2^32 := by
    have hpad := rawPad_eq blob.length
    rw [rawResize, List.length_append, List.length_replicate]
    omega
  have hzero : rawSize (rawResize blob) = 0 := by
    rw [rawSize, hsize]
    rfl
  refine ⟨blob, rawResize blob, hblob, hlen, hzero, ?_⟩
  rintro ⟨hreport, -⟩
  rw [hzero, hsize] at hreport
  exact absurd hreport (by decide)

end Size

end Rcllite
