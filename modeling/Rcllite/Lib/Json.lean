import Rcllite.Lib.Utf8

/-! The grammar of JSON texts, RFC 8259, over the bytes of their UTF-8 encoding. The rules keep the names
of the members of an object, so that one may say which an object has. -/
namespace Json

/-- `ws` -/
def Ws (b : List UInt8) : Prop := ∀ x ∈ b, x = 0x20 ∨ x = 0x09 ∨ x = 0x0a ∨ x = 0x0d

/-- `DIGIT` -/
def Digit (x : UInt8) : Prop := 0x30 ≤ x ∧ x ≤ 0x39

/-- `HEXDIG` -/
def HexDigit (x : UInt8) : Prop := Digit x ∨ (0x41 ≤ x ∧ x ≤ 0x46) ∨ (0x61 ≤ x ∧ x ≤ 0x66)

instance (x : UInt8) : Decidable (Digit x) := inferInstanceAs (Decidable (_ ∧ _))

instance (x : UInt8) : Decidable (HexDigit x) := inferInstanceAs (Decidable (_ ∨ _))

/-- `char` -/
inductive Character : List UInt8 → Prop
  | unescaped (c : Char) (hlow : 0x20 ≤ c.val.toNat) (hquote : c.val.toNat ≠ 0x22) (hback : c.val.toNat ≠ 0x5c) :
      Character (String.utf8EncodeChar c)
  | escaped (x : UInt8) (h : x ∈ [0x22, 0x5c, 0x2f, 0x62, 0x66, 0x6e, 0x72, 0x74]) : Character [0x5c, x]
  | unicode (a b c d : UInt8) (ha : HexDigit a) (hb : HexDigit b) (hc : HexDigit c) (hd : HexDigit d) :
      Character [0x5c, 0x75, a, b, c, d]

/-- What may stand between quotation marks. -/
inductive Chars : List UInt8 → Prop
  | nil : Chars []
  | cons {a b : List UInt8} (ha : Character a) (hb : Chars b) : Chars (a ++ b)

/-- `int` -/
inductive IntPart : List UInt8 → Prop
  | zero : IntPart [0x30]
  | digits (d : UInt8) (ds : List UInt8) (hd : Digit d) (hne : d ≠ 0x30) (hds : ∀ x ∈ ds, Digit x) : IntPart (d :: ds)

/-- `[ frac ]` -/
inductive Frac : List UInt8 → Prop
  | none : Frac []
  | point (ds : List UInt8) (hne : ds ≠ []) (hds : ∀ x ∈ ds, Digit x) : Frac (0x2e :: ds)

/-- `[ exp ]` -/
inductive Exponent : List UInt8 → Prop
  | none : Exponent []
  | some (e : UInt8) (sign ds : List UInt8) (he : e = 0x65 ∨ e = 0x45) (hs : sign = [] ∨ sign = [0x2d] ∨ sign = [0x2b])
      (hne : ds ≠ []) (hds : ∀ x ∈ ds, Digit x) : Exponent (e :: sign ++ ds)

/-- `number` -/
inductive Number : List UInt8 → Prop
  | mk (sign int frac exp : List UInt8) (hs : sign = [] ∨ sign = [0x2d]) (hi : IntPart int) (hf : Frac frac)
      (he : Exponent exp) : Number (sign ++ int ++ frac ++ exp)

inductive Category where
  | value
  | elements                               -- of an array, at least one
  | members (names : List (List UInt8))    -- of an object, by their names

inductive Derives : Category → List UInt8 → Prop
  | false : Derives .value [0x66, 0x61, 0x6c, 0x73, 0x65]
  | null : Derives .value [0x6e, 0x75, 0x6c, 0x6c]
  | true : Derives .value [0x74, 0x72, 0x75, 0x65]
  | number {b : List UInt8} (h : Number b) : Derives .value b
  | string {b : List UInt8} (h : Chars b) : Derives .value (0x22 :: b ++ [0x22])
  | emptyArray {w : List UInt8} (h : Ws w) : Derives .value (0x5b :: w ++ [0x5d])
  | array {b : List UInt8} (h : Derives .elements b) : Derives .value (0x5b :: b ++ [0x5d])
  | object {names : List (List UInt8)} {b : List UInt8} (h : Derives (.members names) b) :
      Derives .value (0x7b :: b ++ [0x7d])
  | element {w v w' : List UInt8} (hw : Ws w) (hv : Derives .value v) (hw' : Ws w') :
      Derives .elements (w ++ v ++ w')
  | elements {w v w' rest : List UInt8} (hw : Ws w) (hv : Derives .value v) (hw' : Ws w')
      (hrest : Derives .elements rest) : Derives .elements (w ++ v ++ w' ++ 0x2c :: rest)
  | noMember {w : List UInt8} (hw : Ws w) : Derives (.members []) w
  | member {w k w' u v u' : List UInt8} (hw : Ws w) (hk : Chars k) (hw' : Ws w') (hu : Ws u) (hv : Derives .value v)
      (hu' : Ws u') : Derives (.members [k]) (w ++ 0x22 :: k ++ 0x22 :: w' ++ 0x3a :: u ++ v ++ u')
  | members {w k w' u v u' rest : List UInt8} {k' : List UInt8} {names : List (List UInt8)} (hw : Ws w) (hk : Chars k)
      (hw' : Ws w') (hu : Ws u) (hv : Derives .value v) (hu' : Ws u') (hrest : Derives (.members (k' :: names)) rest) :
      Derives (.members (k :: k' :: names))
        (w ++ 0x22 :: k ++ 0x22 :: w' ++ 0x3a :: u ++ v ++ u' ++ 0x2c :: rest)

/-- `JSON-text` -/
def Text (b : List UInt8) : Prop := ∃ w v w', Ws w ∧ Derives .value v ∧ Ws w' ∧ b = w ++ v ++ w'

/-- A text that is an object with members of these names, in this order. -/
def ObjectText (names : List (List UInt8)) (b : List UInt8) : Prop :=
  ∃ w m w', Ws w ∧ Derives (.members names) m ∧ Ws w' ∧ b = w ++ (0x7b :: m ++ [0x7d]) ++ w'

theorem ObjectText.text {names : List (List UInt8)} {b : List UInt8} (h : ObjectText names b) : Text b := by
  obtain ⟨w, m, w', hw, hm, hw', rfl⟩ := h
  exact ⟨w, _, w', hw, .object hm, hw', rfl⟩

/-- A printable ASCII byte that needs no escape stands for itself. -/
def Plain (x : UInt8) : Prop := 0x20 ≤ x ∧ x < 0x80 ∧ x ≠ 0x22 ∧ x ≠ 0x5c

instance (x : UInt8) : Decidable (Plain x) := inferInstanceAs (Decidable (_ ∧ _))

theorem Plain.character {x : UInt8} (h : Plain x) : Character [x] := by
  obtain ⟨hlow, hlt, hquote, hback⟩ := h
  obtain ⟨c, hc, henc⟩ := Utf8.exists_char hlt
  rw [← henc]
  refine .unescaped c ?_ ?_ ?_
  · rw [hc]
    exact UInt8.le_iff_toNat_le.mp hlow
  · rw [hc]
    exact fun h => hquote (UInt8.toNat_inj.mp h)
  · rw [hc]
    exact fun h => hback (UInt8.toNat_inj.mp h)

theorem HexDigit.plain {x : UInt8} (h : HexDigit x) : Plain x := by
  simp only [HexDigit, Digit, Plain, UInt8.le_iff_toNat_le, UInt8.lt_iff_toNat_lt, ne_eq, ← UInt8.toNat_inj,
    UInt8.reduceToNat] at h ⊢
  omega

theorem chars_of_plain {b : List UInt8} (h : ∀ x ∈ b, Plain x) : Chars b := by
  induction b with
  | nil => exact .nil
  | cons x b ih =>
    obtain ⟨hx, hb⟩ := List.forall_mem_cons.mp h
    exact .cons hx.character (ih hb)

section Utf8Encoding

theorem Ws.utf8 {b : List UInt8} (h : Ws b) : Utf8 b := by
  apply Utf8.of_ascii
  intro x hx
  rcases h x hx with rfl | rfl | rfl | rfl <;> decide

theorem Digit.ascii {x : UInt8} (h : Digit x) : x < 0x80 := Std.lt_of_le_of_lt h.2 (by decide)

theorem HexDigit.ascii {x : UInt8} (h : HexDigit x) : x < 0x80 := by
  rcases h with h | h | h
  · exact h.ascii
  · exact Std.lt_of_le_of_lt h.2 (by decide)
  · exact Std.lt_of_le_of_lt h.2 (by decide)

theorem Character.utf8 {b : List UInt8} (h : Character b) : Utf8 b := by
  cases h with
  | unescaped c => exact Utf8.encode c
  | escaped x h =>
    have hletters : Ascii [0x22, 0x5c, 0x2f, 0x62, 0x66, 0x6e, 0x72, 0x74] := by decide
    apply Utf8.of_ascii
    simp [Ascii, hletters x h]
  | unicode a b c d ha hb hc hd =>
    apply Utf8.of_ascii
    simp [Ascii, ha.ascii, hb.ascii, hc.ascii, hd.ascii]

theorem Chars.utf8 {b : List UInt8} (h : Chars b) : Utf8 b := by
  induction h with
  | nil => exact Utf8.nil
  | cons ha _ ih => exact ha.utf8.append ih

theorem Number.utf8 {b : List UInt8} (h : Number b) : Utf8 b := by
  have hdigits : ∀ ds : List UInt8, (∀ x ∈ ds, Digit x) → Ascii ds := fun ds h x hx => (h x hx).ascii
  obtain ⟨sign, int, frac, exp, hs, hi, hf, he⟩ := h
  refine (((?_ : Utf8 sign).append ?_).append ?_).append ?_
  · rcases hs with rfl | rfl
    · exact Utf8.nil
    · exact Utf8.singleton (by decide)
  · cases hi with
    | zero => exact Utf8.singleton (by decide)
    | digits d ds hd _ hds => exact (Utf8.singleton hd.ascii).append (Utf8.of_ascii (hdigits ds hds))
  · cases hf with
    | none => exact Utf8.nil
    | point ds _ hds => exact (Utf8.singleton (x := 0x2e) (by decide)).append (Utf8.of_ascii (hdigits ds hds))
  · cases he with
    | none => exact Utf8.nil
    | some e sign ds he hs _ hds =>
      have hhead : Utf8 (e :: sign) := by
        rcases he with rfl | rfl <;> rcases hs with rfl | rfl | rfl <;> exact Utf8.of_ascii (by decide)
      exact hhead.append (Utf8.of_ascii (hdigits ds hds))

theorem Derives.utf8 {c : Category} {b : List UInt8} (h : Derives c b) : Utf8 b := by
  have hone : ∀ {x : UInt8} {b : List UInt8}, x < 0x80 → Utf8 b → Utf8 (x :: b) :=
    fun hx hb => (Utf8.singleton hx).append hb
  induction h with
  | false => exact Utf8.of_ascii (by decide)
  | null => exact Utf8.of_ascii (by decide)
  | true => exact Utf8.of_ascii (by decide)
  | number h => exact h.utf8
  | string h => exact hone (by decide) (h.utf8.append (Utf8.singleton (by decide)))
  | emptyArray h => exact hone (by decide) (h.utf8.append (Utf8.singleton (by decide)))
  | array _ ih => exact hone (by decide) (ih.append (Utf8.singleton (by decide)))
  | object _ ih => exact hone (by decide) (ih.append (Utf8.singleton (by decide)))
  | element hw _ hw' ih => exact (hw.utf8.append ih).append hw'.utf8
  | elements hw _ hw' _ ih ihrest =>
    exact ((hw.utf8.append ih).append hw'.utf8).append (hone (by decide) ihrest)
  | noMember hw => exact hw.utf8
  | member hw hk hw' hu _ hu' ih =>
    have hname := hw.utf8.append (hone (x := 0x22) (by decide) hk.utf8)
    have hcolon := hname.append (hone (x := 0x22) (by decide) hw'.utf8)
    exact ((hcolon.append (hone (x := 0x3a) (by decide) hu.utf8)).append ih).append hu'.utf8
  | members hw hk hw' hu _ hu' _ ih ihrest =>
    have hname := hw.utf8.append (hone (x := 0x22) (by decide) hk.utf8)
    have hcolon := hname.append (hone (x := 0x22) (by decide) hw'.utf8)
    have hvalue := ((hcolon.append (hone (x := 0x3a) (by decide) hu.utf8)).append ih).append hu'.utf8
    exact hvalue.append (hone (by decide) ihrest)

theorem Text.utf8 {b : List UInt8} (h : Text b) : Utf8 b := by
  obtain ⟨w, v, w', hw, hv, hw', rfl⟩ := h
  exact (hw.utf8.append hv.utf8).append hw'.utf8

end Utf8Encoding

section Writing

/-- Items with commas between them. -/
def separated (items : List (List UInt8)) : List UInt8 := [0x2c].intercalate items

def array (items : List (List UInt8)) : List UInt8 := 0x5b :: separated items ++ [0x5d]

/-- A name and a value as a member of an object. -/
def field (name value : List UInt8) : List UInt8 := 0x22 :: name ++ 0x22 :: 0x3a :: value

def object (fields : List (List UInt8 × List UInt8)) : List UInt8 :=
  0x7b :: separated (fields.map (fun f => field f.1 f.2)) ++ [0x7d]

@[simp] theorem separated_singleton (a : List UInt8) : separated [a] = a := by
  simp [separated, List.intercalate]

@[simp] theorem separated_cons (a b : List UInt8) (l : List (List UInt8)) :
    separated (a :: b :: l) = a ++ 0x2c :: separated (b :: l) := by
  simp [separated, List.intercalate]

theorem derives_array {items : List (List UInt8)} (h : ∀ v ∈ items, Derives .value v) :
    Derives .value (array items) := by
  have hws : Ws [] := nofun
  have hitems : ∀ items : List (List UInt8), items ≠ [] → (∀ v ∈ items, Derives .value v) →
      Derives .elements (separated items) := by
    intro items hne h
    induction items with
    | nil => exact absurd rfl hne
    | cons v rest ih =>
      obtain ⟨hv, hrest⟩ := List.forall_mem_cons.mp h
      cases rest with
      | nil =>
        have hone := Derives.element hws hv hws
        rwa [List.nil_append, List.append_nil, ← separated_singleton v] at hone
      | cons v' rest =>
        have hcons := Derives.elements hws hv hws (ih (List.cons_ne_nil _ _) hrest)
        rwa [List.nil_append, List.append_nil, ← separated_cons] at hcons
  cases items with
  | nil => exact .emptyArray hws
  | cons v rest => exact .array (hitems _ (List.cons_ne_nil _ _) h)

/-- Names that need no escape. -/
def plainNames (fields : List (List UInt8 × List UInt8)) : Bool :=
  fields.all (fun f => f.1.all (fun x => decide (Plain x)))

theorem derives_members {fields : List (List UInt8 × List UInt8)} (hn : plainNames fields = true)
    (hv : ∀ f ∈ fields, Derives .value f.2) :
    Derives (.members (fields.map Prod.fst)) (separated (fields.map (fun f => field f.1 f.2))) := by
  have hws : Ws [] := nofun
  induction fields with
  | nil => exact .noMember hws
  | cons f rest ih =>
    obtain ⟨hplain, hns⟩ := Bool.and_eq_true_iff.mp hn
    have hname : Chars f.1 := chars_of_plain (by simpa using hplain)
    obtain ⟨hvalue, hvs⟩ := List.forall_mem_cons.mp hv
    cases rest with
    | nil =>
      have hone := Derives.member hws hname hws hws hvalue hws
      simpa [field] using hone
    | cons g rest =>
      have hcons := Derives.members hws hname hws hws hvalue hws (ih hns hvs)
      simpa [field] using hcons

theorem derives_object {fields : List (List UInt8 × List UInt8)} (hn : plainNames fields = true)
    (hv : ∀ f ∈ fields, Derives .value f.2) : Derives .value (object fields) :=
  .object (derives_members hn hv)

theorem objectText_object {fields : List (List UInt8 × List UInt8)} {names : List (List UInt8)}
    (hnames : fields.map Prod.fst = names) (hn : plainNames fields = true)
    (hv : ∀ f ∈ fields, Derives .value f.2) : ObjectText names (object fields) :=
  ⟨[], _, [], nofun, hnames ▸ derives_members hn hv, nofun, (List.append_nil _).symm⟩

/-- What stands between commas is UTF-8 if the whole is. -/
theorem utf8_separated {items : List (List UInt8)} (h : Utf8 (separated items)) : ∀ v ∈ items, Utf8 v := by
  induction items with
  | nil => exact nofun
  | cons v rest ih =>
    cases rest with
    | nil =>
      rw [separated_singleton] at h
      simpa using h
    | cons v' rest =>
      rw [separated_cons] at h
      obtain ⟨hv, hrest⟩ := Utf8.cut (by decide) h
      exact List.forall_mem_cons.mpr ⟨hv, ih hrest⟩

theorem utf8_between {x y : UInt8} {b : List UInt8} (hx : x < 0x80) (hy : y < 0x80) (h : Utf8 (x :: b ++ [y])) :
    Utf8 b :=
  (Utf8.cut hy (Utf8.cut (a := []) hx h).2).1

theorem utf8_array {items : List (List UInt8)} (h : Utf8 (array items)) : ∀ v ∈ items, Utf8 v :=
  utf8_separated (utf8_between (by decide) (by decide) h)

theorem utf8_object {fields : List (List UInt8 × List UInt8)} (h : Utf8 (object fields)) :
    ∀ f ∈ fields, Utf8 f.2 := by
  intro f hf
  have hfield := utf8_separated (utf8_between (by decide) (by decide) h) _ (List.mem_map_of_mem hf)
  have hafter := (Utf8.cut (a := 0x22 :: f.1) (x := 0x22) (by decide) hfield).2
  exact (Utf8.cut (a := []) (by decide) hafter).2

end Writing

end Json
