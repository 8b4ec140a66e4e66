import Rcllite.Lib.JsonLexer
import Rcllite.SnapshotJson

/-! What the escaper guarantees for the documents that are put together from its results: a string that it
has written is one token, with the string as its content, and no string can change the tokens around it. -/
namespace Rcllite
open Utf8 (literal)

/-- What one turn of the escaper's loop is read as. -/
def escapedUnit (c : UInt8) : Json.StringUnit :=
  if c < 0x20 ∧ c ∉ [0x08, 0x0c, 0x0a, 0x0d, 0x09] then .inr c.toNat else .inl c

section Escaper

theorem hexValue_nibbles {c : UInt8} (h : c < 0x20) :
    Json.hexValue (hexDigit (c >>> 4)) = some (c.toNat/16) ∧ Json.hexValue (hexDigit (c &&& 0xf)) = some (c.toNat%16) := by
  have hall : ∀ k < 32, Json.hexValue (hexDigit (UInt8.ofNat k >>> 4)) = some (k/16) ∧
      Json.hexValue (hexDigit (UInt8.ofNat k &&& 0xf)) = some (k%16) := by decide
  have hc := hall c.toNat (UInt8.lt_iff_toNat_lt.mp h)
  rwa [UInt8.ofNat_toNat] at hc

/-- Reading one byte back, whatever follows. -/
theorem lexFrom_escapeByte (c : UInt8) (us : List Json.StringUnit) (rest : List UInt8) :
    Json.lexFrom (.inside us) (jsonEscapeByte c ++ rest) = Json.lexFrom (.inside (escapedUnit c :: us)) rest := by
  by_cases h1 : c = 0x22
  · subst h1; rfl
  by_cases h2 : c = 0x5c
  · subst h2; rfl
  by_cases h3 : c = 0x08
  · subst h3; rfl
  by_cases h4 : c = 0x0c
  · subst h4; rfl
  by_cases h5 : c = 0x0a
  · subst h5; rfl
  by_cases h6 : c = 0x0d
  · subst h6; rfl
  by_cases h7 : c = 0x09
  · subst h7; rfl
  have hnot : c ∉ [0x08, 0x0c, 0x0a, 0x0d, 0x09] := by simp [h3, h4, h5, h6, h7]
  rw [jsonEscapeByte, if_neg h1, if_neg h2, if_neg h3, if_neg h4, if_neg h5, if_neg h6, if_neg h7, escapedUnit]
  by_cases h8 : c < 0x20
  · obtain ⟨hhigh, hlow⟩ := hexValue_nibbles h8
    have hvalue : 16*(c.toNat/16) + c.toNat%16 = c.toNat := Nat.div_add_mod _ _
    rw [if_pos h8, if_pos ⟨h8, hnot⟩]
    change Json.lexFrom (.hex us 2 0) (hexDigit (c >>> 4) :: hexDigit (c &&& 0xf) :: rest) = _
    rw [Json.lexFrom, hhigh]
    change Json.lexFrom (.hex us 3 (16*0 + c.toNat/16)) (hexDigit (c &&& 0xf) :: rest) = _
    rw [Json.lexFrom, hlow, Nat.mul_zero, Nat.zero_add]
    change Json.lexFrom (.inside (.inr (16*(c.toNat/16) + c.toNat%16) :: us)) rest = _
    rw [hvalue]
  · rw [if_neg h8, if_neg (fun h => h8 h.1), List.singleton_append, Json.lexFrom, if_neg h1, if_neg h2, if_neg h8]

theorem lexFrom_escaped (s : List UInt8) (us : List Json.StringUnit) (rest : List UInt8) :
    Json.lexFrom (.inside us) (s.flatMap jsonEscapeByte ++ rest) =
      Json.lexFrom (.inside ((s.map escapedUnit).reverse ++ us)) rest := by
  induction s generalizing us with
  | nil => rfl
  | cons c s ih =>
    rw [List.flatMap_cons, List.append_assoc, lexFrom_escapeByte, ih, List.map_cons, List.reverse_cons,
      List.append_assoc]
    rfl

theorem meaning_escaped (s : List UInt8) : Json.meaning (s.map escapedUnit) = some s := by
  have hall : ∀ k < 32, String.utf8EncodeChar (Char.ofNat k) = [UInt8.ofNat k] := by decide
  induction s with
  | nil => rfl
  | cons c s ih =>
    rw [List.map_cons, escapedUnit]
    split_ifs with hc
    · have hlt : c.toNat < 32 := UInt8.lt_iff_toNat_lt.mp hc.1
      have hplain : ¬ Json.IsSurrogate c.toNat := fun h => absurd h.1 (by omega)
      rw [Json.meaning_code hplain, ih, hall c.toNat hlt, UInt8.ofNat_toNat]
      rfl
    · rw [Json.meaning, ih]
      rfl

/-- The decoder after the escaper, in front of anything. -/
theorem lexes_jsonEscapeString (s : List UInt8) : Json.Lexes (jsonEscapeString s) [.str s] := by
  intro rest
  rw [jsonEscapeString, List.cons_append, List.cons_append, List.append_assoc, List.singleton_append, Json.lexFrom,
    if_pos rfl, lexFrom_escaped, Json.lexFrom, if_pos rfl, List.append_nil, List.reverse_reverse, meaning_escaped]
  rfl

theorem jsonEscapeString_injective : Function.Injective jsonEscapeString := by
  intro s t h
  have hs := (lexes_jsonEscapeString s).lex
  rw [h, (lexes_jsonEscapeString t).lex] at hs
  cases hs
  rfl

/-- Every byte the escaper writes for `c` is no quotation mark or is escaped, and the next byte is not. -/
theorem escapeByte_quotes (c : UInt8) {done : List UInt8} (hdone : ¬ Json.Escapes done) :
    ¬ Json.Escapes (done ++ jsonEscapeByte c) ∧
      ∀ a b, jsonEscapeByte c = a ++ 0x22 :: b → Json.Escapes (done ++ a) := by
  have hback : Json.Escapes (done ++ [0x5c]) := (Json.escapes_backslash done).mpr hdone
  rcases jsonEscapeByte_forms c with ⟨-, x, -, heq⟩ | ⟨-, x, y, hx, hy, heq⟩ | ⟨-, hquote, hslash, heq⟩
  · have hsplit : done ++ [0x5c, x] = done ++ [0x5c] ++ [x] := by simp
    rw [heq]
    refine ⟨?_, ?_⟩
    · rw [hsplit]
      by_cases hx : x = 0x5c
      · rw [hx, Json.escapes_backslash, not_not]
        exact hback
      · exact Json.not_escapes_other hx _
    · intro a b h
      rcases a with _ | ⟨a0, _ | ⟨a1, a⟩⟩
      · cases h
      · cases h
        exact hback
      · simp at h
  · have hy5c : y ≠ 0x5c := hy.plain.2.2.2
    rw [heq]
    refine ⟨?_, ?_⟩
    · have hsplit : done ++ [0x5c, 0x75, 0x30, 0x30, x, y] = done ++ [0x5c, 0x75, 0x30, 0x30, x] ++ [y] := by simp
      rw [hsplit]
      exact Json.not_escapes_other hy5c _
    · -- none of the six bytes is a quotation mark
      intro a b h
      have hmem : (0x22 : UInt8) ∈ [0x5c, 0x75, 0x30, 0x30, x, y] := by simp [h]
      simp only [List.mem_cons, List.not_mem_nil, or_false] at hmem
      rcases hmem with h | h | h | h | h | h
      · exact absurd h (by decide)
      · exact absurd h (by decide)
      · exact absurd h (by decide)
      · exact absurd h (by decide)
      · exact absurd h.symm hx.plain.2.2.1
      · exact absurd h.symm hy.plain.2.2.1
  · rw [heq]
    refine ⟨Json.not_escapes_other hslash _, ?_⟩
    intro a b h
    rcases a with _ | ⟨a0, a⟩
    · exact absurd (List.cons.inj h).1 hquote
    · simp at h

theorem escaped_quotes (s : List UInt8) {done : List UInt8} (hdone : ¬ Json.Escapes done) {a b : List UInt8}
    (h : s.flatMap jsonEscapeByte = a ++ 0x22 :: b) : Json.Escapes (done ++ a) := by
  induction s generalizing done a with
  | nil => simp at h
  | cons c s ih =>
    obtain ⟨hnext, hinside⟩ := escapeByte_quotes c hdone
    rw [List.flatMap_cons] at h
    rcases List.append_eq_append_iff.mp h with ⟨a', rfl, hrest⟩ | ⟨c', hhead, hrest⟩
    · rw [← List.append_assoc]
      exact ih hnext hrest
    · cases c' with
      | nil =>
        rw [List.append_nil] at hhead
        have hfirst := ih hnext (a := []) hrest.symm
        rwa [List.append_nil, hhead] at hfirst
      | cons x c' =>
        obtain ⟨rfl, -⟩ := List.cons.inj hrest
        exact hinside a c' hhead

end Escaper

section Status

/-- What `status_json` shows of a publisher or of a subscription; `count` is `published` or `received`. -/
structure StatusEntry where
  topic : List UInt8
  type : List UInt8
  count : BitVec 64

structure StatusNode where
  fqName : List UInt8
  publishers : List StatusEntry
  subscriptions : List StatusEntry

def StatusEntry.dump (counter : List UInt8) (e : StatusEntry) : List UInt8 :=
  Json.object [(literal "topic", jsonEscapeString e.topic), (literal "type", jsonEscapeString e.type),
    (counter, decimal e.count.toNat)]

def StatusNode.dump (n : StatusNode) : List UInt8 :=
  Json.object [(literal "name", jsonEscapeString n.fqName),
    (literal "publishers", Json.array (n.publishers.map (StatusEntry.dump (literal "published")))),
    (literal "subscriptions", Json.array (n.subscriptions.map (StatusEntry.dump (literal "received"))))]

def statusJson (nodes : List StatusNode) : List UInt8 :=
  Json.object [(literal "nodes", Json.array (nodes.map StatusNode.dump))]

end Status

section Blank

/-- A snapshot of the same shape in which every string from outside is empty. -/
def Snapshot.blank (s : Snapshot) : Snapshot where
  nodes := s.nodes.map (fun n => ([], n.2))
  topics := s.topics.map (fun t => ⟨[], [], t.publishers.map (fun _ => []), t.subscriptions.map (fun _ => [])⟩)
  services := s.services.map (fun t => ⟨[], [], t.servers.map (fun _ => []), t.clients.map (fun _ => [])⟩)
  edges := s.edges.map (fun e => ⟨[], [], [], e.kind⟩)
  endpoints := s.endpoints.map (fun e => ⟨e.guid, { e.info with topic := [], type := [] }, [], e.source⟩)
  logs := s.logs.map (fun l => { l with name := [], msg := [], file := [], function := [] })

def StatusEntry.blank (e : StatusEntry) : StatusEntry := ⟨[], [], e.count⟩

def StatusNode.blank (n : StatusNode) : StatusNode :=
  ⟨[], n.publishers.map StatusEntry.blank, n.subscriptions.map StatusEntry.blank⟩

theorem alike_escaped (s t : List UInt8) : Json.Alike (jsonEscapeString s) (jsonEscapeString t) :=
  .strings (lexes_jsonEscapeString s) (lexes_jsonEscapeString t)

theorem alike_decimal (n : ℕ) : Json.Alike (decimal n) (decimal n) := by
  have hdigits : ∀ b, Json.IntPart b → ∀ x ∈ b, Json.Digit x := by
    rintro b (_ | ⟨d, ds, hd, -, hds⟩)
    · exact List.forall_mem_singleton.mpr (by decide)
    · exact List.forall_mem_cons.mpr ⟨hd, hds⟩
  exact .refl (.bytes (fun h => absurd (hdigits _ (number_decimal n) _ h) (by decide)))

theorem alike_signedDecimal (z : ℤ) : Json.Alike (signedDecimal z) (signedDecimal z) := by
  unfold signedDecimal
  split_ifs
  · exact .byte (by decide) (alike_decimal _)
  · exact alike_decimal _

theorem alike_names (names : List (List UInt8)) :
    Json.Alike (dumpNames names) (dumpNames (names.map (fun _ => []))) := by
  unfold dumpNames
  rw [List.map_map]
  exact .array (fun n _ => alike_escaped n [])

theorem alike_guid (g : Guid) : Json.Alike (0x22 :: guidHex g ++ [0x22]) (0x22 :: guidHex g ++ [0x22]) :=
  .refl (Json.lexes_plainString (guidHex_plain g))

/-- A section and its blank, when every entry is like its own blank. -/
theorem alike_section {α : Type} {dump : α → List UInt8} {blank : α → α} (h : ∀ a, Json.Alike (dump a) (dump (blank a)))
    (l : List α) : Json.Alike (Json.array (l.map dump)) (Json.array ((l.map blank).map dump)) := by
  rw [List.map_map]
  exact .array (fun a _ => h a)

theorem alike_dump (s : Snapshot) : Json.Alike s.dump s.blank.dump := by
  refine .object rfl (.cons ⟨rfl, alike_section ?_ _⟩ (.cons ⟨rfl, alike_section ?_ _⟩ (.cons ⟨rfl, alike_section ?_ _⟩
    (.cons ⟨rfl, alike_section ?_ _⟩ (.cons ⟨rfl, alike_section ?_ _⟩ (.cons ⟨rfl, alike_section ?_ _⟩ .nil))))))
  · intro n
    exact .object rfl (.cons ⟨rfl, alike_escaped _ _⟩ (.cons ⟨rfl, alike_escaped _ _⟩ .nil))
  · intro t
    exact .object rfl (.cons ⟨rfl, alike_escaped _ _⟩ (.cons ⟨rfl, alike_escaped _ _⟩
      (.cons ⟨rfl, alike_names _⟩ (.cons ⟨rfl, alike_names _⟩ .nil))))
  · intro t
    exact .object rfl (.cons ⟨rfl, alike_escaped _ _⟩ (.cons ⟨rfl, alike_escaped _ _⟩
      (.cons ⟨rfl, alike_names _⟩ (.cons ⟨rfl, alike_names _⟩ .nil))))
  · intro e
    exact .object rfl (.cons ⟨rfl, alike_escaped _ _⟩ (.cons ⟨rfl, alike_escaped _ _⟩
      (.cons ⟨rfl, alike_escaped _ _⟩ (.cons ⟨rfl, alike_escaped _ _⟩ .nil))))
  · intro e
    exact .object rfl (.cons ⟨rfl, alike_guid _⟩ (.cons ⟨rfl, alike_guid _⟩ (.cons ⟨rfl, alike_escaped _ _⟩
      (.cons ⟨rfl, alike_escaped _ _⟩ (.cons ⟨rfl, alike_escaped _ _⟩ (.cons ⟨rfl, alike_escaped _ _⟩ .nil))))))
  · intro l
    exact .object rfl (.cons ⟨rfl, alike_signedDecimal _⟩ (.cons ⟨rfl, alike_decimal _⟩
      (.cons ⟨rfl, alike_escaped _ _⟩ (.cons ⟨rfl, alike_escaped _ _⟩ (.cons ⟨rfl, alike_escaped _ _⟩
      (.cons ⟨rfl, alike_escaped _ _⟩ (.cons ⟨rfl, alike_decimal _⟩ .nil)))))))

theorem alike_statusEntry {counter : List UInt8} (h : ∀ x ∈ counter, Json.Plain x) (e : StatusEntry) :
    Json.Alike (e.dump counter) (e.blank.dump counter) := by
  have hplain : Json.plainNames [(literal "topic", jsonEscapeString e.topic), (literal "type", jsonEscapeString e.type),
      (counter, decimal e.count.toNat)] = true := by
    have hcounter : (counter.all fun x => decide (Json.Plain x)) = true := by simpa using h
    simp only [Json.plainNames, List.all_cons, List.all_nil, hcounter, Bool.and_true]
    decide
  exact .object hplain (.cons ⟨rfl, alike_escaped _ _⟩ (.cons ⟨rfl, alike_escaped _ _⟩
    (.cons ⟨rfl, alike_decimal _⟩ .nil)))

theorem alike_statusJson (nodes : List StatusNode) :
    Json.Alike (statusJson nodes) (statusJson (nodes.map StatusNode.blank)) := by
  have hpublished : ∀ x ∈ literal "published", Json.Plain x := by simpa using (by decide :
    ((literal "published").all fun x => decide (Json.Plain x)) = true)
  have hreceived : ∀ x ∈ literal "received", Json.Plain x := by simpa using (by decide :
    ((literal "received").all fun x => decide (Json.Plain x)) = true)
  refine .object rfl (.cons ⟨rfl, alike_section (fun n => ?_) nodes⟩ .nil)
  exact .object rfl (.cons ⟨rfl, alike_escaped _ _⟩
    (.cons ⟨rfl, alike_section (alike_statusEntry hpublished) n.publishers⟩
    (.cons ⟨rfl, alike_section (alike_statusEntry hreceived) n.subscriptions⟩ .nil)))

end Blank

/-- The escaper is lossless, and what it writes cannot be told from any other string by the structure of the
two documents it is used for. -/
theorem json_escaping_lossless (s : List UInt8) (h : Utf8 s) :
    (∃ b, Json.Chars b ∧ jsonEscapeString s = 0x22 :: b ++ [0x22]) ∧
    (∀ rest, Json.lex (jsonEscapeString s ++ rest) = (Json.lex rest).map (.str s :: ·)) ∧
    (∀ a b, jsonEscapeString s = 0x22 :: a ++ 0x22 :: b → b ≠ [] → Json.Escapes a) ∧
    (∀ t, jsonEscapeString t = jsonEscapeString s → t = s) ∧
    (∀ snapshot : Snapshot, Json.SameStructure snapshot.dump snapshot.blank.dump) ∧
    ∀ nodes, Json.SameStructure (statusJson nodes) (statusJson (nodes.map StatusNode.blank)) := by
  refine ⟨⟨_, chars_escaped h, rfl⟩, lexes_jsonEscapeString s, ?_, fun t ht => jsonEscapeString_injective ht,
    fun snapshot => (alike_dump snapshot).sameStructure, fun nodes => (alike_statusJson nodes).sameStructure⟩
  intro a b hab hb
  rw [jsonEscapeString, List.cons_append, List.cons_append] at hab
  have hbody := (List.cons.inj hab).2
  -- the last byte of the string is its closing quotation mark
  obtain ⟨b', x, rfl⟩ := (List.eq_nil_or_concat b).resolve_left hb
  rw [List.concat_eq_append, ← List.cons_append, ← List.append_assoc] at hbody
  have hsplit := List.append_inj_left' hbody rfl
  have hnone : ¬ Json.Escapes [] := Nat.zero_ne_one
  exact escaped_quotes s hnone hsplit

theorem json_escaping_lossless_quote : Utf8 (literal "a\\\"") ∧
    Json.lex (jsonEscapeString (literal "a\\\"")) = some [.str (literal "a\\\"")] := by
  have hutf8 : Utf8 (literal "a\\\"") := Utf8.of_ascii (by decide)
  have hlex := (json_escaping_lossless _ hutf8).2.1 []
  rw [List.append_nil] at hlex
  exact ⟨hutf8, hlex⟩

end Rcllite
