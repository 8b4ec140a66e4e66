import Rcllite.Lib.Checks
import Rcllite.Lib.Cursors
import Rcllite.PyReading

/-! Any sequence of writer calls, replayed by the reader. A call is a few pieces
of bytes behind padding; writer and reader pad alike except in front of an empty
list of doubles. -/
namespace Rcllite.Py
open Interaction Cursors

/-- One call of a writer method, with its argument. -/
inductive Call where
  | boolean (value : Bool)
  | uint8 (value : ℤ)
  | int32 (value : ℤ)
  | uint32 (value : ℤ)
  | float64 (value : BitVec 64)
  | string (value : PyStr)
  | byteSequence (value : List UInt8)
  | doubleSequence (values : List (BitVec 64))
  | doubles (values : List (BitVec 64))

namespace Call

def write : Call → CdrWriter → Except PyError CdrWriter
  | .boolean value => CdrWriter.boolean value
  | .uint8 value => CdrWriter.uint8 value
  | .int32 value => CdrWriter.int32 value
  | .uint32 value => CdrWriter.uint32 value
  | .float64 value => CdrWriter.float64 value
  | .string value => CdrWriter.string value
  | .byteSequence value => CdrWriter.byteSequence value
  | .doubleSequence values => CdrWriter.doubleSequence values
  | .doubles values => CdrWriter.doubles values

/-- The reader method of the same name; the count of `doubles` is the one
written. -/
def read : Call → Decoder Call
  | .boolean _ => Decoder.boolean.bind (fun v => .done (.boolean v))
  | .uint8 _ => Decoder.uint8.bind (fun v => .done (.uint8 v))
  | .int32 _ => Decoder.int32.bind (fun v => .done (.int32 v))
  | .uint32 _ => Decoder.uint32.bind (fun v => .done (.uint32 v))
  | .float64 _ => Decoder.float64.bind (fun v => .done (.float64 v))
  | .string _ => Decoder.string.bind (fun v => .done (.string v))
  | .byteSequence _ => Decoder.byteSequence.bind (fun v => .done (.byteSequence v))
  | .doubleSequence _ => Decoder.doubleSequence.bind (fun v => .done (.doubleSequence v))
  | .doubles values => (Decoder.doubles values.length).bind (fun v => .done (.doubles v))

def InRange : Call → Prop
  | .uint8 value => IntFormat.InRange .B value
  | .int32 value => IntFormat.InRange .i value
  | .uint32 value => IntFormat.InRange .I value
  | .string value => ∃ raw, encodeUtf8 value = .ok raw ∧ raw.length + 1 < 2^32
  | .byteSequence value => value.length < 2^32
  | .doubleSequence values => values.length < 2^32
  | .boolean _ | .float64 _ | .doubles _ => True

end Call

def writeAll : List Call → CdrWriter → Except PyError CdrWriter
  | [], w => .ok w
  | c :: cs, w => c.write w >>= writeAll cs

def readAll : List Call → Decoder (List Call)
  | [] => .done []
  | c :: cs => c.read.bind (fun v => (readAll cs).bind (fun vs => .done (v :: vs)))

section Values

def IntFormat.bytes (f : IntFormat) (n : ℤ) : List UInt8 :=
  LittleEndian.toBytes f.size (n % (256^f.size : ℕ)).toNat

theorem unpack_eq_iff {f : IntFormat} {raw : List UInt8} {n : ℤ} (hlen : raw.length = f.size) (hn : f.InRange n) :
    f.unpack raw = n ↔ raw = f.bytes n := by
  have hlt := LittleEndian.ofBytes_lt raw
  have hraw := LittleEndian.toBytes_ofBytes raw
  rw [hlen] at hlt hraw
  have hword : (n % (256^f.size : ℕ)).toNat < 256^f.size := by
    have hpos : (0 : ℤ) < (256^f.size : ℕ) := Int.natCast_pos.mpr (Nat.pow_pos (by decide))
    have := Int.emod_lt_of_pos n hpos
    have := Int.emod_nonneg n hpos.ne'
    omega
  -- both sides say that the number read is `n` modulo the width
  have hiff : raw = f.bytes n ↔ LittleEndian.ofBytes raw = (n % (256^f.size : ℕ)).toNat := by
    constructor
    · intro h
      rw [h, IntFormat.bytes, LittleEndian.ofBytes_toBytes, Nat.mod_eq_of_lt hword]
    · intro h
      rw [IntFormat.bytes, ← h, hraw]
  rw [hiff]
  cases f with
  | B =>
    have h1 : (0 : ℤ) ≤ n := hn.1
    have h2 : n < 256 := hn.2
    change (LittleEndian.ofBytes raw : ℤ) = n ↔ LittleEndian.ofBytes raw = (n % 256).toNat
    omega
  | i =>
    have h1 : -2147483648 ≤ n := hn.1
    have h2 : n < 2147483648 := hn.2
    have h3 : LittleEndian.ofBytes raw < 4294967296 := hlt
    change Int.bmod (LittleEndian.ofBytes raw) 4294967296 = n ↔
      LittleEndian.ofBytes raw = (n % 4294967296).toNat
    rw [Int.bmod_def]
    split_ifs <;> omega
  | I =>
    have h1 : (0 : ℤ) ≤ n := hn.1
    have h2 : n < 4294967296 := hn.2
    change (LittleEndian.ofBytes raw : ℤ) = n ↔ LittleEndian.ofBytes raw = (n % 4294967296).toNat
    omega

theorem unpackDoubles_eq_iff {count : ℕ} {raw : List UInt8} {values : List (BitVec 64)} (hlen : raw.length = count*8) :
    unpackDoubles count raw = values ↔ count = values.length ∧ raw = packDoubles values := by
  have henc : ∀ v : BitVec 64, (LittleEndian.toBytes 8 v.toNat).length = 8 := fun _ => LittleEndian.toBytes_length _ _
  constructor
  · rintro rfl
    refine ⟨by rw [unpackDoubles, List.length_map, LittleEndian.blocks_length], ?_⟩
    have hblock : ∀ b ∈ LittleEndian.blocks 8 count raw,
        LittleEndian.toBytes 8 (BitVec.ofNat 64 (LittleEndian.ofBytes b)).toNat = b := by
      intro b hb
      have h8 := LittleEndian.length_of_mem_blocks 8 count raw hlen b hb
      have hlt := LittleEndian.ofBytes_lt b
      have hself := LittleEndian.toBytes_ofBytes b
      rw [h8] at hlt hself
      rw [BitVec.toNat_ofNat, Nat.mod_eq_of_lt (show LittleEndian.ofBytes b < 2^64 from hlt), hself]
    rw [packDoubles, unpackDoubles, List.flatMap_map, List.flatMap_def, List.map_congr_left hblock, List.map_id',
      LittleEndian.blocks_flatten 8 count raw hlen]
  · rintro ⟨rfl, rfl⟩
    rw [unpackDoubles, packDoubles, LittleEndian.blocks_flatMap _ 8 henc, List.map_map]
    conv_rhs => rw [← List.map_id values]
    apply List.map_congr_left
    intro v _
    have hlt : v.toNat < 256^8 := v.isLt
    rw [Function.comp_apply, LittleEndian.ofBytes_toBytes, Nat.mod_eq_of_lt hlt, BitVec.ofNat_toNat]
    exact BitVec.setWidth_eq v

theorem toChar?_eq_some {c : CodePoint} {x : Char} (h : c.toChar? = some x) : c = CodePoint.ofChar x := by
  unfold CodePoint.toChar? at h
  by_cases hvalid : c.val.isValidChar
  · rw [dif_pos hvalid] at h
    cases h
    rfl
  · rw [dif_neg hvalid] at h
    cases h

theorem eq_map_ofChar {s : PyStr} {cs : List Char} (h : s.mapM CodePoint.toChar? = some cs) :
    s = cs.map CodePoint.ofChar := by
  induction s generalizing cs with
  | nil =>
    cases h
    rfl
  | cons c s ih =>
    rw [List.mapM_cons] at h
    cases hc : c.toChar? with
    | none => rw [hc] at h; cases h
    | some x =>
      cases hs : s.mapM CodePoint.toChar? with
      | none => rw [hc, hs] at h; cases h
      | some xs =>
        rw [hc, hs] at h
        cases h
        rw [List.map_cons, ← ih hs, toChar?_eq_some hc]

/-- The strict codec: a byte string decodes to the `str` that encodes to it. -/
theorem decodeUtf8_eq_iff {raw : List UInt8} {s : PyStr} : decodeUtf8 raw = .ok s ↔ encodeUtf8 s = .ok raw := by
  have hbytes : ∀ cs : List Char, (cs.flatMap String.utf8EncodeChar).toByteArray = cs.utf8Encode := fun _ => rfl
  constructor
  · intro h
    unfold decodeUtf8 at h
    split at h
    · rename_i cs hcs
      cases h
      have hsome : raw.toByteArray.utf8Decode?.isSome := by rw [hcs]; rfl
      have hback := ByteArray.utf8Encode_get_utf8Decode? (h := hsome)
      simp only [hcs, Option.get_some] at hback
      rw [encodeUtf8, mapM_toChar?]
      have hdata := congrArg (fun b : ByteArray => b.data.toList) hback
      exact congrArg Except.ok (by simpa [List.utf8Encode] using hdata)
    · cases h
  · intro h
    unfold encodeUtf8 at h
    split at h
    · rename_i cs hcs
      cases h
      rw [decodeUtf8, hbytes, List.utf8Decode?_utf8Encode]
      exact congrArg Except.ok (eq_map_ofChar hcs).symm
    · cases h

end Values

section Pieces

theorem padding_one (pos : ℕ) : padding 1 pos = 0 := by
  unfold padding
  omega

/-- Padding keeps the order of two positions. -/
theorem padding_mono {a : ℕ} (ha : a = 4 ∨ a = 8) {w r : ℕ} (h : w ≤ r) : w + padding a w ≤ r + padding a r := by
  unfold padding
  rcases ha with rfl | rfl <;> omega

theorem padding_padding {a : ℕ} (ha : a = 4 ∨ a = 8) (pos : ℕ) : padding a (pos + padding a pos) = 0 := by
  unfold padding
  rcases ha with rfl | rfl <;> omega

/-- Bytes that are read as they were written. -/
def exactPiece (writerPad readerPad : ℕ → ℕ) (hahead : ∀ w r, w ≤ r → w + writerPad w ≤ r + readerPad r)
    (bytes : List UInt8) : Piece UInt8 0 where
  writerPad := writerPad
  readerPad := readerPad
  items := bytes
  Accepts := (· = bytes)
  accepts_self := rfl
  reflects := by
    rintro _ rfl
    exact List.forall₂_same.mpr (fun _ _ h => h)
  ahead := hahead

def plainPiece (bytes : List UInt8) : Piece UInt8 0 := exactPiece (fun _ => 0) (fun _ => 0) (fun _ _ h => h) bytes

/-- Four bytes behind a padding to four. -/
def wordPiece (f : IntFormat) (n : ℤ) : Piece UInt8 0 :=
  exactPiece (padding 4) (padding 4) (fun _ _ => padding_mono (.inl rfl)) (f.bytes n)

/-- The writer pads only in front of the first element, the reader always. -/
def doublesPiece (values : List (BitVec 64)) : Piece UInt8 0 :=
  exactPiece (fun w => if values = [] then 0 else padding 8 w) (padding 8)
    (fun w r h => by
      split_ifs with hnil
      · omega
      · exact padding_mono (.inr rfl) h)
    (packDoubles values)

/-- Any byte but zero is true. -/
def flagPiece (value : Bool) : Piece UInt8 0 where
  writerPad _ := 0
  readerPad _ := 0
  items := if value then [1] else [0]
  Accepts xs := xs.length = 1 ∧ (xs != [0]) = value
  accepts_self := by cases value <;> decide
  reflects := by
    rintro xs ⟨hlen, rfl⟩
    obtain ⟨b, rfl⟩ := List.length_eq_one_iff.mp hlen
    by_cases hb : b = 0
    · subst hb
      exact .cons (fun _ => rfl) .nil
    · have hval : (([b] : List UInt8) != [0]) = true := by simp [hb]
      rw [hval, if_pos rfl]
      exact .cons (fun h => absurd h hb) .nil
  ahead _ _ h := h

/-- The terminating byte is not looked at. -/
def charsPiece (raw : List UInt8) : Piece UInt8 0 where
  writerPad _ := 0
  readerPad _ := 0
  items := raw ++ [0]
  Accepts xs := xs.length = raw.length + 1 ∧ xs.dropLast = raw
  accepts_self := ⟨by rw [List.length_append]; rfl, List.dropLast_concat⟩
  reflects := by
    rintro xs ⟨hlen, rfl⟩
    have hne : xs ≠ [] := by
      rintro rfl
      simp at hlen
    have hxs := List.dropLast_append_getLast hne
    conv => arg 2; rw [← hxs]
    exact List.rel_append (List.forall₂_same.mpr (fun _ _ h => h)) (.cons (fun _ => rfl) .nil)
  ahead _ _ h := h

/-- The UTF-8 form of a `str` that has one. -/
def utf8 (value : PyStr) : List UInt8 := (encodeUtf8 value).toOption.getD []

theorem utf8_of_encode {value : PyStr} {raw : List UInt8} (h : encodeUtf8 value = .ok raw) : utf8 value = raw := by
  rw [utf8, h]
  rfl

def Call.pieces : Call → List (Piece UInt8 0)
  | .boolean value => [flagPiece value]
  | .uint8 value => [plainPiece (IntFormat.bytes .B value)]
  | .int32 value => [wordPiece .i value]
  | .uint32 value => [wordPiece .I value]
  | .float64 value => [doublesPiece [value]]
  | .string value => [wordPiece .I ((utf8 value).length + 1), charsPiece (utf8 value)]
  | .byteSequence value => [wordPiece .I value.length, plainPiece value]
  | .doubleSequence values => [wordPiece .I values.length, doublesPiece values]
  | .doubles values => [doublesPiece values]

end Pieces

section Writing

theorem CdrWriter.append_append (w : CdrWriter) (a b : List UInt8) : (w.append a).append b = w.append (a ++ b) := by
  unfold CdrWriter.append
  rw [List.append_assoc]

theorem CdrWriter.append_length (w : CdrWriter) (a : List UInt8) : (w.append a).buf.length = w.buf.length + a.length :=
  List.length_append

theorem packed_eq_ok {f : IntFormat} {n : ℤ} {w w' : CdrWriter} :
    CdrWriter.packed f n w = .ok w' ↔ f.InRange n ∧ w' = w.append (f.bytes n) := by
  unfold CdrWriter.packed IntFormat.pack
  by_cases hn : f.InRange n
  · rw [if_pos hn]
    exact ⟨fun h => ⟨hn, by cases h; rfl⟩, fun h => by rw [h.2]; rfl⟩
  · rw [if_neg hn]
    constructor
    · intro h
      cases h
    · exact fun h => absurd h.1 hn

/-- Padding twice is padding once. -/
theorem CdrWriter.pad_pad (w : CdrWriter) : (w.pad 4).pad 4 = w.pad 4 := by
  have hlen : (w.pad 4).buf.length = w.buf.length + padding 4 w.buf.length := by
    rw [CdrWriter.pad, CdrWriter.append_length, List.length_replicate]
  rw [CdrWriter.pad, hlen, padding_padding (.inl rfl), List.replicate_zero, CdrWriter.append, List.append_nil]

/-- A word behind its padding, as `int32` and `uint32` write it. -/
theorem word_eq_ok {f : IntFormat} {n : ℤ} {w w' : CdrWriter} :
    CdrWriter.packed f n (w.pad 4) = .ok w' ↔ f.InRange n ∧ w' = w.append (layout [wordPiece f n] w.buf.length) := by
  have hlayout : w.append (layout [wordPiece f n] w.buf.length) = (w.pad 4).append (f.bytes n) := by
    rw [CdrWriter.pad, CdrWriter.append_append]
    simp only [layout, List.append_nil]
    rfl
  rw [packed_eq_ok, hlayout]

theorem appendDoubles_eq (values : List (BitVec 64)) (w : CdrWriter) :
    w.appendDoubles values = w.append (layout [doublesPiece values] w.buf.length) := by
  have hlayout : layout [doublesPiece values] w.buf.length =
      List.replicate (if values = [] then 0 else padding 8 w.buf.length) 0 ++ packDoubles values := by
    simp only [layout, List.append_nil]
    rfl
  rw [hlayout, CdrWriter.appendDoubles]
  by_cases hnil : values = []
  · subst hnil
    rw [if_pos rfl, if_pos rfl, CdrWriter.append]
    exact congrArg CdrWriter.mk (List.append_nil _).symm
  · rw [if_neg hnil, if_neg hnil, CdrWriter.pad, CdrWriter.append_append]

/-- A length prefix and what follows it. -/
theorem prefixed_eq_ok {n : ℕ} {p : Piece UInt8 0} {k : CdrWriter → CdrWriter}
    (hk : ∀ w, k w = w.append (layout [p] w.buf.length)) {w w' : CdrWriter} :
    (w.uint32 n >>= fun w => .ok (k w)) = .ok w' ↔
      n < 2^32 ∧ w' = w.append (layout [wordPiece .I n, p] w.buf.length) := by
  have hrange : IntFormat.InRange .I n ↔ n < 2^32 := by
    change (0 ≤ (n : ℤ) ∧ (n : ℤ) < 0x100000000) ↔ _
    omega
  have hsplit := layout_append [wordPiece .I n] [p] w.buf.length
  have hboth : (w.append (layout [wordPiece .I n] w.buf.length)).append
      (layout [p] (w.append (layout [wordPiece .I n] w.buf.length)).buf.length) =
      w.append (layout [wordPiece .I n, p] w.buf.length) := by
    rw [CdrWriter.append_append, CdrWriter.append_length, ← hsplit]
    rfl
  rw [Checks.bind_eq_ok]
  constructor
  · rintro ⟨u, hu, hw⟩
    obtain ⟨hn, rfl⟩ := word_eq_ok.mp hu
    cases hw
    exact ⟨hrange.mp hn, (hk _).trans hboth⟩
  · rintro ⟨hn, rfl⟩
    exact ⟨_, word_eq_ok.mpr ⟨hrange.mpr hn, rfl⟩, congrArg Except.ok ((hk _).trans hboth)⟩

theorem plain_layout (bytes : List UInt8) (w : CdrWriter) :
    w.append bytes = w.append (layout [plainPiece bytes] w.buf.length) := by
  simp only [layout, List.append_nil]
  rfl

/-- The writer accepts a call exactly when its argument is in range, and then
appends the pieces of the call. -/
theorem Call.write_eq_ok (c : Call) (w w' : CdrWriter) :
    c.write w = .ok w' ↔ c.InRange ∧ w' = w.append (layout c.pieces w.buf.length) := by
  have htrue {a b : CdrWriter} (h : a = b) : Except.ok (ε := PyError) a = .ok w' ↔ True ∧ w' = b := by
    rw [h, true_and, Except.ok.injEq, eq_comm]
  cases c with
  | boolean value =>
    refine htrue ?_
    simp only [Call.pieces, layout, List.append_nil]
    rfl
  | uint8 value =>
    change CdrWriter.packed .B value w = .ok w' ↔ _
    rw [packed_eq_ok, plain_layout]
    rfl
  | int32 value => exact word_eq_ok
  | uint32 value => exact word_eq_ok
  | float64 value =>
    refine htrue ?_
    exact appendDoubles_eq [value] w
  | string value =>
    change (encodeUtf8 value >>= fun raw => w.uint32 (raw.length + 1) >>= fun w => .ok (w.append (raw ++ [0]))) = _ ↔
      (∃ raw, encodeUtf8 value = .ok raw ∧ raw.length + 1 < 2^32) ∧ _
    cases henc : encodeUtf8 value with
    | error e =>
      constructor
      · intro h
        cases h
      · rintro ⟨⟨_, h, -⟩, -⟩
        cases h
    | ok raw =>
      have hraw := utf8_of_encode henc
      have hchars : ∀ w : CdrWriter, w.append (raw ++ [0]) = w.append (layout [charsPiece raw] w.buf.length) := by
        intro w
        simp only [layout, List.append_nil]
        rfl
      have hword : (w.uint32 ((raw.length + 1 : ℕ) : ℤ) >>= fun w => .ok (w.append (raw ++ [0]))) = .ok w' ↔ _ :=
        prefixed_eq_ok hchars
      rw [Int.natCast_add, Int.natCast_one] at hword
      rw [Call.pieces, hraw, bind_ok rfl, hword]
      constructor
      · rintro ⟨hlt, h⟩
        exact ⟨⟨raw, rfl, hlt⟩, h⟩
      · rintro ⟨⟨_, h, hlt⟩, hw⟩
        cases h
        exact ⟨hlt, hw⟩
  | byteSequence value =>
    change ((w.pad 4).uint32 value.length >>= fun w => .ok (w.append value)) = _ ↔ _
    have hpad : (w.pad 4).uint32 value.length = w.uint32 value.length := by
      rw [CdrWriter.uint32, CdrWriter.pad_pad]
      rfl
    rw [hpad]
    exact prefixed_eq_ok (plain_layout value)
  | doubleSequence values =>
    change ((w.pad 4).uint32 values.length >>= fun w => .ok (w.appendDoubles values)) = _ ↔ _
    have hpad : (w.pad 4).uint32 values.length = w.uint32 values.length := by
      rw [CdrWriter.uint32, CdrWriter.pad_pad]
      rfl
    rw [hpad]
    exact prefixed_eq_ok (appendDoubles_eq values)
  | doubles values =>
    refine htrue ?_
    exact appendDoubles_eq values w

end Writing

section Reading
variable {β : Type} {data : List UInt8} {r r' : ℕ}

theorem at_iff {n : ℕ} {xs : List UInt8} : At data r xs ∧ xs.length = n ↔
    r + n ≤ data.length ∧ xs = (data.drop r).take n := by
  constructor
  · rintro ⟨⟨before, after, rfl, rfl⟩, rfl⟩
    refine ⟨?_, ?_⟩
    · simp only [List.length_append]
      omega
    · rw [List.drop_left, List.take_left]
  · rintro ⟨hle, rfl⟩
    have hlen : ((data.drop r).take n).length = n := by
      rw [List.length_take, List.length_drop]
      omega
    refine ⟨⟨data.take r, data.drop (r + n), ?_, ?_⟩, hlen⟩
    · rw [← List.drop_drop, List.take_append_drop, List.take_append_drop]
    · rw [List.length_take]
      omega

theorem take_bind_eq_ok {n : ℕ} {k : List UInt8 → Decoder β} {y : β × CdrReader} :
    ((Decoder.take n).bind k).run pyStep ⟨data, r⟩ = .ok y ↔
      ∃ xs, At data r xs ∧ xs.length = n ∧ (k xs).run pyStep ⟨data, r + xs.length⟩ = .ok y := by
  by_cases hend : r + n > data.length
  · have htake : (Decoder.take n).run pyStep ⟨data, r⟩ = .error (.valueError "CDR read past end of buffer") := by
      rw [Decoder.run_take, CdrReader.take, if_pos hend]
    rw [Prog.run_bind_error _ htake]
    constructor
    · intro h
      cases h
    · rintro ⟨xs, hat, rfl, -⟩
      exact absurd hat.le (by omega)
  · have htake : (Decoder.take n).run pyStep ⟨data, r⟩ = .ok ((data.drop r).take n, ⟨data, r + n⟩) := by
      rw [Decoder.run_take, CdrReader.take, if_neg hend]
    have hat := at_iff.mpr ⟨not_lt.mp hend, rfl⟩
    rw [Prog.run_bind_ok _ htake]
    constructor
    · intro h
      refine ⟨(data.drop r).take n, hat.1, hat.2, ?_⟩
      rw [hat.2]
      exact h
    · rintro ⟨xs, hxs, hlen, h⟩
      obtain ⟨-, rfl⟩ := at_iff.mp ⟨hxs, hlen⟩
      rwa [hlen] at h

theorem pad_bind_eq_ok {a : ℕ} {k : Unit → Decoder β} {y : β × CdrReader} :
    ((Decoder.pad a).bind k).run pyStep ⟨data, r⟩ = .ok y ↔
      r + padding a r ≤ data.length ∧ (k ()).run pyStep ⟨data, r + padding a r⟩ = .ok y := by
  by_cases hend : r + padding a r > data.length
  · have hpad : (Decoder.pad a).run pyStep ⟨data, r⟩ =
        .error (.valueError "CDR alignment runs past end of buffer") := by
      rw [Decoder.run_pad, CdrReader.pad, if_pos hend]
    rw [Prog.run_bind_error _ hpad]
    constructor
    · intro h
      cases h
    · exact fun h => absurd h.1 (by omega)
  · have hpad : (Decoder.pad a).run pyStep ⟨data, r⟩ = .ok ((), ⟨data, r + padding a r⟩) := by
      rw [Decoder.run_pad, CdrReader.pad, if_neg hend]
    rw [Prog.run_bind_ok _ hpad]
    exact ⟨fun h => ⟨not_lt.mp hend, h⟩, fun h => h.2⟩

theorem done_eq_ok {x y : β} : (Prog.done x : Decoder β).run pyStep ⟨data, r⟩ = .ok (y, ⟨data, r'⟩) ↔
    x = y ∧ r' = r := by
  rw [Prog.run_done, Except.ok.injEq, Prod.mk.injEq, CdrReader.mk.injEq]
  exact ⟨fun h => ⟨h.1, h.2.2.symm⟩, fun h => ⟨h.1, rfl, h.2.symm⟩⟩

theorem exists_at_and_le {p : List UInt8 → Prop} :
    (r ≤ data.length ∧ ∃ xs, At data r xs ∧ p xs) ↔ ∃ xs, At data r xs ∧ p xs := by
  refine and_iff_right_of_imp ?_
  rintro ⟨xs, hat, -⟩
  have hle := hat.le
  omega

/-- Padding and taking, as the reader does for every aligned piece. -/
theorem pad_take_bind_eq_ok {a n : ℕ} {k : List UInt8 → Decoder β} {y : β × CdrReader} :
    ((Decoder.pad a).bind (fun _ => (Decoder.take n).bind k)).run pyStep ⟨data, r⟩ = .ok y ↔
      ∃ xs, At data (r + padding a r) xs ∧ xs.length = n ∧
        (k xs).run pyStep ⟨data, r + padding a r + xs.length⟩ = .ok y := by
  rw [pad_bind_eq_ok, take_bind_eq_ok]
  exact exists_at_and_le

/-- The length prefix that `uint32` reads; whatever follows gets the number. -/
theorem uint32_bind_eq_ok {k : ℤ → Decoder β} {y : β × CdrReader} :
    (Decoder.uint32.bind k).run pyStep ⟨data, r⟩ = .ok y ↔
      ∃ xs, At data (r + padding 4 r) xs ∧ xs.length = 4 ∧
        (k (IntFormat.unpack .I xs)).run pyStep ⟨data, r + padding 4 r + xs.length⟩ = .ok y := by
  simp only [Decoder.uint32, Decoder.unpacked, Prog.bind_eq, Prog.bind_assoc, Prog.pure_eq, Prog.done_bind]
  exact pad_take_bind_eq_ok

theorem pad_uint32_bind_eq_ok {k : ℤ → Decoder β} {y : β × CdrReader} :
    ((Decoder.pad 4).bind (fun _ => Decoder.uint32.bind k)).run pyStep ⟨data, r⟩ = .ok y ↔
      (Decoder.uint32.bind k).run pyStep ⟨data, r⟩ = .ok y := by
  rw [pad_bind_eq_ok, uint32_bind_eq_ok, uint32_bind_eq_ok, padding_padding (.inl rfl), Nat.add_zero]
  exact exists_at_and_le

/-- A word, and then `rest`. -/
theorem word_found {f : IntFormat} {n : ℤ} (hsize : f.size = 4) (hn : f.InRange n) {rest : List (Piece UInt8 0)} :
    Found data (wordPiece f n :: rest) r r' ↔ ∃ xs, At data (r + padding 4 r) xs ∧ xs.length = 4 ∧
      f.unpack xs = n ∧ Found data rest (r + padding 4 r + xs.length) r' := by
  have hbytes : (f.bytes n).length = 4 := by rw [IntFormat.bytes, LittleEndian.toBytes_length, hsize]
  constructor
  · rintro ⟨xs, hat, rfl, h⟩
    exact ⟨f.bytes n, hat, hbytes, (unpack_eq_iff (hbytes.trans hsize.symm) hn).mpr rfl, h⟩
  · rintro ⟨xs, hat, hlen, hunpack, h⟩
    exact ⟨xs, hat, (unpack_eq_iff (hlen.trans hsize.symm) hn).mp hunpack, h⟩

theorem packDoubles_length (values : List (BitVec 64)) : (packDoubles values).length = values.length*8 :=
  LittleEndian.flatMap_length _ 8 (fun _ => LittleEndian.toBytes_length _ _) values

theorem doubles_found {values : List (BitVec 64)} : Found data [doublesPiece values] r r' ↔
    ∃ xs, At data (r + padding 8 r) xs ∧ xs.length = values.length*8 ∧
      unpackDoubles values.length xs = values ∧ r' = r + padding 8 r + xs.length := by
  constructor
  · rintro ⟨xs, hat, rfl, h⟩
    have hlen := packDoubles_length values
    exact ⟨packDoubles values, hat, hlen, (unpackDoubles_eq_iff hlen).mpr ⟨rfl, rfl⟩, h⟩
  · rintro ⟨xs, hat, hlen, hunpack, h⟩
    exact ⟨xs, hat, ((unpackDoubles_eq_iff hlen).mp hunpack).2, h⟩

theorem readDoubles_eq_ok {values : List (BitVec 64)} :
    (Decoder.doubles values.length).run pyStep ⟨data, r⟩ = .ok (values, ⟨data, r'⟩) ↔
      Found data [doublesPiece values] r r' := by
  simp only [Decoder.doubles, Decoder.takeDoubles, Prog.bind_eq, Prog.pure_eq]
  rw [pad_take_bind_eq_ok, doubles_found]
  simp only [done_eq_ok]

/-- The characters of a string of which the length is known. -/
theorem chars_eq_ok {len : ℕ} {s : PyStr} : (Decoder.chars len).run pyStep ⟨data, r⟩ = .ok (s, ⟨data, r'⟩) ↔
    ∃ xs, At data r xs ∧ xs.length = len ∧ xs ≠ [] ∧ encodeUtf8 s = .ok xs.dropLast ∧ r' = r + xs.length := by
  unfold Decoder.chars
  split_ifs with hzero
  · constructor
    · intro h
      cases h
    · rintro ⟨xs, -, hlen, hne, -⟩
      exact absurd (List.eq_nil_of_length_eq_zero (hlen.trans hzero)) hne
  · rw [Prog.bind_eq, take_bind_eq_ok]
    constructor
    · rintro ⟨xs, hat, hlen, hdec⟩
      have hne : xs ≠ [] := by
        rintro rfl
        exact hzero hlen.symm
      cases hraw : decodeUtf8 xs.dropLast with
      | error e =>
        rw [hraw] at hdec
        cases hdec
      | ok s' =>
        rw [hraw] at hdec
        obtain ⟨rfl, hr⟩ := done_eq_ok.mp hdec
        exact ⟨xs, hat, hlen, hne, decodeUtf8_eq_iff.mp hraw, hr⟩
    · rintro ⟨xs, hat, hlen, -, henc, hr⟩
      refine ⟨xs, hat, hlen, ?_⟩
      rw [decodeUtf8_eq_iff.mpr henc]
      exact done_eq_ok.mpr ⟨rfl, hr⟩

/-- Runs that end in a value wrapped by a constructor. -/
theorem bind_done_eq_ok {γ : Type} {p : Decoder γ} {mk : γ → β} (hmk : Function.Injective mk) {v : γ}
    {u u' : CdrReader} : (p.bind (fun x => .done (mk x))).run pyStep u = .ok (mk v, u') ↔
      p.run pyStep u = .ok (v, u') := by
  constructor
  · intro h
    obtain ⟨x, s, hp, hdone⟩ := Prog.run_bind_eq_ok _ h
    rw [Prog.run_done, Except.ok.injEq, Prod.mk.injEq, hmk.eq_iff] at hdone
    rw [hp, hdone.1, hdone.2]
  · intro h
    rw [Prog.run_bind_ok _ h, Prog.run_done]

theorem readString_eq_ok {value : PyStr} (h : (Call.string value).InRange) :
    Decoder.string.run pyStep ⟨data, r⟩ = .ok (value, ⟨data, r'⟩) ↔
      Found data (Call.string value).pieces r r' := by
  obtain ⟨raw, henc, hlt⟩ := h
  have hraw := utf8_of_encode henc
  have hrange : IntFormat.InRange .I ((raw.length : ℤ) + 1) := by
    change 0 ≤ (raw.length : ℤ) + 1 ∧ (raw.length : ℤ) + 1 < 0x100000000
    omega
  rw [Call.pieces, hraw, word_found rfl hrange, Decoder.string, Prog.bind_eq, uint32_bind_eq_ok]
  simp only [chars_eq_ok]
  constructor
  · rintro ⟨xs, hat, hlen, ys, hys, hylen, hne, henc', hr⟩
    -- the number of characters says which length was read
    have hdrop : ys.dropLast = raw := by
      rw [henc] at henc'
      exact (Except.ok.inj henc').symm
    have hpos := List.length_pos_iff.mpr hne
    have hsize : ys.length = raw.length + 1 := by
      rw [← hdrop, List.length_dropLast]
      omega
    refine ⟨xs, hat, hlen, by omega, ys, hys, ⟨hsize, hdrop⟩, hr⟩
  · rintro ⟨xs, hat, hlen, hunpack, ys, hys, ⟨hsize, hdrop⟩, hr⟩
    refine ⟨xs, hat, hlen, ys, hys, by omega, ?_, by rw [hdrop]; exact henc, hr⟩
    rintro rfl
    cases hsize

theorem readBytes_eq_ok {value : List UInt8} (h : value.length < 2^32) :
    Decoder.byteSequence.run pyStep ⟨data, r⟩ = .ok (value, ⟨data, r'⟩) ↔
      Found data (Call.byteSequence value).pieces r r' := by
  have hrange : IntFormat.InRange .I value.length := ⟨by omega, by omega⟩
  have htake : ∀ (n : ℕ) (m : ℕ), (Decoder.take n).run pyStep ⟨data, m⟩ = .ok (value, ⟨data, r'⟩) ↔
      At data m value ∧ value.length = n ∧ r' = m + value.length := by
    intro n m
    rw [← Prog.bind_done (Decoder.take n), take_bind_eq_ok]
    constructor
    · rintro ⟨xs, hat, hlen, hdone⟩
      obtain ⟨rfl, hr⟩ := done_eq_ok.mp hdone
      exact ⟨hat, hlen, hr⟩
    · rintro ⟨hat, hlen, hr⟩
      exact ⟨value, hat, hlen, done_eq_ok.mpr ⟨rfl, hr⟩⟩
  rw [Call.pieces, word_found rfl hrange, Decoder.byteSequence]
  simp only [Prog.bind_eq]
  rw [pad_uint32_bind_eq_ok, uint32_bind_eq_ok]
  simp only [htake]
  constructor
  · rintro ⟨xs, hat, hlen, hval, hcount, hr⟩
    refine ⟨xs, hat, hlen, ?_, value, hval, rfl, hr⟩
    change (LittleEndian.ofBytes xs : ℤ) = _
    exact congrArg Nat.cast hcount.symm
  · rintro ⟨xs, hat, hlen, hunpack, ys, hval, rfl, hr⟩
    exact ⟨xs, hat, hlen, hval, by omega, hr⟩

theorem readDoubleSequence_eq_ok {values : List (BitVec 64)} (h : values.length < 2^32) :
    Decoder.doubleSequence.run pyStep ⟨data, r⟩ = .ok (values, ⟨data, r'⟩) ↔
      Found data (Call.doubleSequence values).pieces r r' := by
  have hrange : IntFormat.InRange .I values.length := ⟨by omega, by omega⟩
  rw [Call.pieces, word_found rfl hrange, Decoder.doubleSequence]
  simp only [Prog.bind_eq, Decoder.takeDoubles, Prog.pure_eq, doubles_found]
  rw [pad_uint32_bind_eq_ok, uint32_bind_eq_ok]
  simp only [pad_take_bind_eq_ok, done_eq_ok]
  constructor
  · rintro ⟨xs, hat, hlen, ys, hys, hylen, hunpack, hr⟩
    have hcount := ((unpackDoubles_eq_iff hylen).mp hunpack).1
    rw [hcount] at hylen hunpack
    refine ⟨xs, hat, hlen, ?_, ys, hys, hylen, hunpack, hr⟩
    change (LittleEndian.ofBytes xs : ℤ) = _
    exact congrArg Nat.cast hcount
  · rintro ⟨xs, hat, hlen, hunpack, ys, hys, hylen, hvalues, hr⟩
    have hcount : (IntFormat.unpack .I xs).toNat = values.length := by omega
    refine ⟨xs, hat, hlen, ys, hys, ?_, ?_, hr⟩
    · rw [hcount, hylen]
    · rw [hcount, hvalues]

theorem readWord_eq_ok {f : IntFormat} {n : ℤ} (hsize : f.size = 4) (hn : f.InRange n) :
    ((Decoder.pad 4).bind (fun _ => Decoder.unpacked f)).run pyStep ⟨data, r⟩ = .ok (n, ⟨data, r'⟩) ↔
      Found data [wordPiece f n] r r' := by
  simp only [Decoder.unpacked, Prog.bind_eq, Prog.pure_eq, hsize]
  rw [pad_take_bind_eq_ok, word_found hsize hn]
  simp only [done_eq_ok]
  rfl

theorem readUint8_eq_ok {n : ℤ} (hn : IntFormat.InRange .B n) :
    Decoder.uint8.run pyStep ⟨data, r⟩ = .ok (n, ⟨data, r'⟩) ↔ Found data (Call.uint8 n).pieces r r' := by
  simp only [Decoder.uint8, Decoder.unpacked, Prog.bind_eq, Prog.pure_eq]
  rw [take_bind_eq_ok]
  simp only [done_eq_ok]
  constructor
  · rintro ⟨xs, hat, hlen, hunpack, hr⟩
    exact ⟨xs, hat, (unpack_eq_iff hlen hn).mp hunpack, hr⟩
  · rintro ⟨xs, hat, rfl, hr⟩
    have hlen : (IntFormat.bytes .B n).length = 1 := LittleEndian.toBytes_length _ _
    exact ⟨_, hat, hlen, (unpack_eq_iff hlen hn).mpr rfl, hr⟩

theorem readBoolean_eq_ok {value : Bool} :
    Decoder.boolean.run pyStep ⟨data, r⟩ = .ok (value, ⟨data, r'⟩) ↔ Found data (Call.boolean value).pieces r r' := by
  simp only [Decoder.boolean, Prog.bind_eq, Prog.pure_eq]
  rw [take_bind_eq_ok]
  simp only [done_eq_ok]
  constructor
  · rintro ⟨xs, hat, hlen, hval, hr⟩
    exact ⟨xs, hat, ⟨hlen, hval⟩, hr⟩
  · rintro ⟨xs, hat, ⟨hlen, hval⟩, hr⟩
    exact ⟨xs, hat, hlen, hval, hr⟩

theorem readFloat64_eq_ok {value : BitVec 64} :
    Decoder.float64.run pyStep ⟨data, r⟩ = .ok (value, ⟨data, r'⟩) ↔ Found data (Call.float64 value).pieces r r' := by
  have hone : ∀ xs : List UInt8, xs.length = 8 →
      (BitVec.ofNat 64 (LittleEndian.ofBytes xs) = value ↔ unpackDoubles 1 xs = [value]) := by
    intro xs hlen
    have htake : xs.take 8 = xs := List.take_of_length_le hlen.le
    simp only [unpackDoubles, LittleEndian.blocks, List.map_cons, List.map_nil, htake, List.cons.injEq, and_true]
  rw [Call.pieces, doubles_found, Decoder.float64]
  simp only [Prog.bind_eq, Prog.pure_eq]
  rw [pad_take_bind_eq_ok]
  simp only [done_eq_ok]
  constructor
  · rintro ⟨xs, hat, hlen, hval, hr⟩
    exact ⟨xs, hat, hlen, (hone xs hlen).mp hval, hr⟩
  · rintro ⟨xs, hat, hlen, hval, hr⟩
    exact ⟨xs, hat, hlen, (hone xs hlen).mpr hval, hr⟩

/-- Reading a call back is finding its pieces. -/
theorem Call.read_eq_ok (c : Call) (h : c.InRange) :
    c.read.run pyStep ⟨data, r⟩ = .ok (c, ⟨data, r'⟩) ↔ Found data c.pieces r r' := by
  cases c with
  | boolean value => exact (bind_done_eq_ok (fun _ _ => Call.boolean.inj)).trans readBoolean_eq_ok
  | uint8 value => exact (bind_done_eq_ok (fun _ _ => Call.uint8.inj)).trans (readUint8_eq_ok h)
  | int32 value => exact (bind_done_eq_ok (fun _ _ => Call.int32.inj)).trans (readWord_eq_ok rfl h)
  | uint32 value => exact (bind_done_eq_ok (fun _ _ => Call.uint32.inj)).trans (readWord_eq_ok rfl h)
  | float64 value => exact (bind_done_eq_ok (fun _ _ => Call.float64.inj)).trans readFloat64_eq_ok
  | string value => exact (bind_done_eq_ok (fun _ _ => Call.string.inj)).trans (readString_eq_ok h)
  | byteSequence value => exact (bind_done_eq_ok (fun _ _ => Call.byteSequence.inj)).trans (readBytes_eq_ok h)
  | doubleSequence values =>
    exact (bind_done_eq_ok (fun _ _ => Call.doubleSequence.inj)).trans (readDoubleSequence_eq_ok h)
  | doubles values => exact (bind_done_eq_ok (fun _ _ => Call.doubles.inj)).trans readDoubles_eq_ok

/-- No call touches the bytes. -/
theorem run_data {p : Decoder β} {u u' : CdrReader} {b : β} (h : p.run pyStep u = .ok (b, u')) :
    u'.data = u.data := by
  refine Prog.run_invariant pyStep (fun s => s.data = u.data) ?_ p p.uses_trivial rfl h
  rintro (a | n) s x s' - hs hstep
  · change CdrReader.pad a s = _ at hstep
    unfold CdrReader.pad at hstep
    dsimp only at hstep
    split_ifs at hstep
    cases hstep
    exact hs
  · change CdrReader.take n s = _ at hstep
    unfold CdrReader.take at hstep
    split_ifs at hstep
    cases hstep
    exact hs

theorem readAll_eq_ok (calls : List Call) (h : ∀ c ∈ calls, c.InRange) :
    (readAll calls).run pyStep ⟨data, r⟩ = .ok (calls, ⟨data, r'⟩) ↔
      Found data (calls.flatMap Call.pieces) r r' := by
  induction calls generalizing r with
  | nil =>
    rw [readAll, done_eq_ok, List.flatMap_nil]
    exact ⟨fun h => h.2, fun h => ⟨rfl, h⟩⟩
  | cons c cs ih =>
    have hc := h c List.mem_cons_self
    have hcs (m : ℕ) := ih (r := m) (fun d hd => h d (List.mem_cons_of_mem c hd))
    rw [List.flatMap_cons, found_append, readAll]
    constructor
    · intro hrun
      obtain ⟨v, ⟨data', m⟩, hfirst, hrest⟩ := Prog.run_bind_eq_ok _ hrun
      obtain ⟨vs, u, hrest, hdone⟩ := Prog.run_bind_eq_ok _ hrest
      obtain rfl : data' = data := run_data hfirst
      rw [Prog.run_done, Except.ok.injEq, Prod.mk.injEq, List.cons.injEq] at hdone
      obtain ⟨⟨rfl, rfl⟩, rfl⟩ := hdone
      exact ⟨m, (v.read_eq_ok hc).mp hfirst, (hcs m).mp hrest⟩
    · rintro ⟨m, hfirst, hrest⟩
      rw [Prog.run_bind_ok _ ((c.read_eq_ok hc).mpr hfirst), Prog.run_bind_ok _ ((hcs m).mpr hrest), Prog.run_done]

end Reading

theorem writeAll_eq_ok (calls : List Call) (h : ∀ c ∈ calls, c.InRange) (w : CdrWriter) :
    writeAll calls w = .ok (w.append (layout (calls.flatMap Call.pieces) w.buf.length)) := by
  induction calls generalizing w with
  | nil =>
    rw [writeAll, List.flatMap_nil, layout, CdrWriter.append, List.append_nil]
  | cons c cs ih =>
    have hc := (c.write_eq_ok w _).mpr ⟨h c List.mem_cons_self, rfl⟩
    rw [writeAll, bind_ok hc, ih (fun d hd => h d (List.mem_cons_of_mem c hd)), CdrWriter.append_append,
      CdrWriter.append_length, List.flatMap_cons, layout_append]

/-- The reader, replaying the calls on the payload and anything behind it,
returns the written values and stops at the end of the payload. -/
def Replays (calls : List Call) : Prop :=
  ∃ w, writeAll calls CdrWriter.new = .ok w ∧ ∀ t, ∃ r r', CdrReader.new (w.payload ++ t) = .ok r ∧
    (readAll calls).run pyStep r = .ok (calls, r') ∧ r'.pos = w.payload.length

/-- Whenever an empty list of doubles has sent the reader ahead, the two meet
again before the end and only zeros are written until then. Both start behind
the four bytes of the header. -/
def CursorsMeet (calls : List Call) : Prop := Synced (calls.flatMap Call.pieces) 4 4

theorem new_payload (body : List UInt8) : CdrReader.new (CdrWriter.new.buf ++ body) = .ok ⟨CdrWriter.new.buf ++ body, 4⟩ := by
  unfold CdrReader.new CdrWriter.new
  rw [if_neg (by simp)]

/-- Replaying works exactly for the call sequences whose cursors meet. -/
theorem python_calls_replay_iff (calls : List Call) (h : ∀ c ∈ calls, c.InRange) :
    Replays calls ↔ CursorsMeet calls := by
  have hwrite := writeAll_eq_ok calls h CdrWriter.new
  have hsynced (t : List UInt8) := found_iff_synced (calls.flatMap Call.pieces) CdrWriter.new.buf t le_rfl
  have hpayload (t : List UInt8) : (CdrWriter.new.append (layout (calls.flatMap Call.pieces)
      CdrWriter.new.buf.length)).payload ++ t =
      CdrWriter.new.buf ++ (layout (calls.flatMap Call.pieces) CdrWriter.new.buf.length ++ t) := by
    rw [CdrWriter.payload, CdrWriter.append, List.append_assoc]
  constructor
  · rintro ⟨w, hw, hall⟩
    rw [hwrite, Except.ok.injEq] at hw
    subst hw
    obtain ⟨r, ⟨data, pos⟩, hnew, hrun, hpos⟩ := hall []
    rw [hpayload, new_payload, Except.ok.injEq] at hnew
    subst hnew
    obtain rfl : data = _ := run_data hrun
    obtain rfl : pos = _ := hpos
    rw [readAll_eq_ok calls h, CdrWriter.payload, CdrWriter.append_length] at hrun
    exact (hsynced []).mp hrun
  · intro hmeet
    refine ⟨_, hwrite, fun t => ?_⟩
    rw [hpayload, new_payload]
    refine ⟨_, _, rfl, (readAll_eq_ok calls h).mpr ((hsynced t).mpr hmeet), ?_⟩
    rw [CdrWriter.payload, CdrWriter.append_length]

theorem python_calls_replay_iff_camera :
    (∀ c ∈ [Call.doubleSequence [], .doubles [1, 2], .uint8 255], c.InRange) ∧
      Replays [.doubleSequence [], .doubles [1, 2], .uint8 255] := by
  have hrange : ∀ c ∈ [Call.doubleSequence [], .doubles [1, 2], .uint8 255], c.InRange := by
    simp [Call.InRange, IntFormat.InRange]
  refine ⟨hrange, (python_calls_replay_iff _ hrange).mpr ?_⟩
  -- the reader is ahead by four bytes until `doubles` pads the writer
  exact ⟨.inl rfl, .inr (by rintro b ⟨⟩), .inl rfl, .inl rfl, rfl⟩

/-- An empty `double_sequence` alone: the reader pads past the payload. -/
theorem empty_double_sequence_lost :
    (∀ c ∈ [Call.doubleSequence []], c.InRange) ∧ ¬ Replays [.doubleSequence []] := by
  refine ⟨by simp [Call.InRange], ?_⟩
  rintro ⟨w, hw, hall⟩
  obtain rfl : w = ⟨[0, 1, 0, 0, 0, 0, 0, 0]⟩ := (Except.ok.inj hw).symm
  obtain ⟨r, r', hnew, hrun, -⟩ := hall []
  obtain rfl : r = ⟨[0, 1, 0, 0, 0, 0, 0, 0], 4⟩ := (Except.ok.inj hnew).symm
  cases hrun

end Rcllite.Py
