import Mathlib.Data.Nat.Digits.Lemmas
import Rcllite.Lib.JsonLexer
import Rcllite.Lib.JsonValue

/-! Reading a JSON text into a value, as Python's `json.loads` does: the tokens drive a stack of the arrays
and objects that are still open. What is neither an integer nor one of the three names is left to a reader
of floats. -/
namespace Json
open JsonValue (Value)

section Scalars

def digit? (x : UInt8) : Option ℕ := if 0x30 ≤ x ∧ x ≤ 0x39 then some (x.toNat - 0x30) else none

/-- A run of decimal digits. -/
def digits? (b : List UInt8) : Option ℕ := (b.mapM digit?).map fun ds => ds.foldl (fun n d => 10*n + d) 0

/-- No leading zero, and no more digits than the interpreter converts. -/
def natural? (b : List UInt8) : Option ℕ :=
  if b = [] ∨ (b.head? = some 0x30 ∧ b.length ≠ 1) ∨ 4300 < b.length then none else digits? b

def integer? : List UInt8 → Option ℤ
  | 0x2d :: b => (natural? b).map fun n : ℕ => -(n : ℤ)
  | b => (natural? b).map fun n : ℕ => (n : ℤ)

def scalar? (float : List UInt8 → Option Value) (b : List UInt8) : Option Value :=
  if b = [0x6e, 0x75, 0x6c, 0x6c] then some .null
  else if b = [0x74, 0x72, 0x75, 0x65] then some (.boolean true)
  else if b = [0x66, 0x61, 0x6c, 0x73, 0x65] then some (.boolean false)
  else match integer? b with
    | some n => some (.integer n)
    | none => float b

theorem IntPart.forall_digit {b : List UInt8} (h : IntPart b) : ∀ x ∈ b, Digit x := by
  cases h with
  | zero => exact List.forall_mem_singleton.mpr (by decide)
  | digits d ds hd _ hds => exact List.forall_mem_cons.mpr ⟨hd, hds⟩

theorem IntPart.natural? {b : List UInt8} (h : IntPart b) (hlen : b.length ≤ 4300) : natural? b = digits? b := by
  refine if_neg ?_
  cases h with
  | zero => decide
  | digits d ds _ hne =>
    rintro (hnil | ⟨hhead, -⟩ | hlong)
    · exact List.cons_ne_nil _ _ hnil
    · exact hne (Option.some.inj hhead)
    · exact absurd hlen (Nat.not_le.mpr hlong)

end Scalars

section Dictionaries

/-- A key that is there keeps its place and gets the new value. -/
def setKey (key : List UInt8) (v : Value) : List (List UInt8 × Value) → List (List UInt8 × Value)
  | [] => [(key, v)]
  | (k, w) :: d => if k = key then (k, v) :: d else (k, w) :: setKey key v d

def dict (members : List (List UInt8 × Value)) : List (List UInt8 × Value) :=
  members.foldl (fun d m => setKey m.1 m.2 d) []

theorem setKey_new {key : List UInt8} {v : Value} {d : List (List UInt8 × Value)} (h : key ∉ d.map Prod.fst) :
    setKey key v d = d ++ [(key, v)] := by
  induction d with
  | nil => rfl
  | cons e d ih =>
    obtain ⟨hne, hrest⟩ := not_or.mp (fun hmem => h (List.mem_cons.mpr hmem))
    rw [setKey, if_neg (fun heq => hne heq.symm), ih hrest, List.cons_append]

theorem dict_of_nodup {members : List (List UInt8 × Value)} (h : (members.map Prod.fst).Nodup) :
    dict members = members := by
  have hfold : ∀ d : List (List UInt8 × Value), ((d ++ members).map Prod.fst).Nodup →
      members.foldl (fun d m => setKey m.1 m.2 d) d = d ++ members := by
    clear h
    induction members with
    | nil => exact fun d _ => (List.append_nil d).symm
    | cons m members ih =>
      intro d hd
      have hnew : m.1 ∉ d.map Prod.fst := by
        rw [List.map_append, List.map_cons] at hd
        exact fun hmem => (List.nodup_middle.mp hd).notMem (List.mem_append_left _ hmem)
      rw [List.foldl_cons, setKey_new hnew, ih, List.append_assoc, List.singleton_append]
      rwa [List.append_assoc, List.singleton_append]
  exact hfold [] h

end Dictionaries

section Reader

/-- What a value that is being read stands in, with what came before it, last first. -/
inductive Frame where
  | array (done : List Value)
  | member (done : List (List UInt8 × Value)) (key : List UInt8)

/-- What the next token may be. -/
inductive Expect where
  | value (closable : Bool)                                     -- also the end of an array just opened
  | key (done : List (List UInt8 × Value)) (closable : Bool)
  | colon (done : List (List UInt8 × Value)) (key : List UInt8)
  | scalar (text : List UInt8)                                  -- more of it, which stands last first
  | after (v : Value)

def isBlank (x : UInt8) : Bool := x == 0x20 || x == 0x09 || x == 0x0a || x == 0x0d

/-- The bytes that end a number or a name. -/
def isDelimiter (x : UInt8) : Bool :=
  isBlank x || x == 0x2c || x == 0x3a || x == 0x5b || x == 0x5d || x == 0x7b || x == 0x7d

theorem Digit.not_isDelimiter {x : UInt8} (h : Digit x) : isDelimiter x = false ∧ x ≠ 0x22 := by
  simp only [Digit, isDelimiter, isBlank, Bool.or_eq_false_iff, beq_eq_false_iff_ne, UInt8.le_iff_toNat_le, ne_eq,
    ← UInt8.toNat_inj, UInt8.reduceToNat] at h ⊢
  omega

/-- Behind a value. -/
def stepAfter (stack : List Frame) (v : Value) : Token → Option (List Frame × Expect)
  | .str _ => none
  | .byte x =>
    if isBlank x then some (stack, .after v)
    else match stack with
      | [] => none
      | .array done :: stack =>
        if x = 0x2c then some (.array (v :: done) :: stack, .value false)
        else if x = 0x5d then some (stack, .after (.array (v :: done).reverse))
        else none
      | .member done key :: stack =>
        if x = 0x2c then some (stack, .key ((key, v) :: done) false)
        else if x = 0x7d then some (stack, .after (.object (dict ((key, v) :: done).reverse)))
        else none

/-- Where a value may begin. -/
def stepValue (stack : List Frame) (closable : Bool) : Token → Option (List Frame × Expect)
  | .str s => some (stack, .after (.string s))
  | .byte x =>
    if isBlank x then some (stack, .value closable)
    else if x = 0x5b then some (.array [] :: stack, .value true)
    else if x = 0x7b then some (stack, .key [] true)
    else if x = 0x5d then
      match closable, stack with
      | true, .array _ :: stack => some (stack, .after (.array []))
      | _, _ => none
    else if isDelimiter x then none
    else some (stack, .scalar [x])

def stepKey (stack : List Frame) (done : List (List UInt8 × Value)) (closable : Bool) :
    Token → Option (List Frame × Expect)
  | .str s => some (stack, .colon done s)
  | .byte x =>
    if isBlank x then some (stack, .key done closable)
    else if closable ∧ x = 0x7d then some (stack, .after (.object []))
    else none

def stepColon (stack : List Frame) (done : List (List UInt8 × Value)) (key : List UInt8) :
    Token → Option (List Frame × Expect)
  | .str _ => none
  | .byte x =>
    if isBlank x then some (stack, .colon done key)
    else if x = 0x3a then some (.member done key :: stack, .value false)
    else none

variable (float : List UInt8 → Option Value)

def stepScalar (stack : List Frame) (text : List UInt8) : Token → Option (List Frame × Expect)
  | .str _ => none
  | .byte x =>
    if isDelimiter x then (scalar? float text.reverse).bind fun v => stepAfter stack v (.byte x)
    else some (stack, .scalar (x :: text))

def readStep : List Frame × Expect → Token → Option (List Frame × Expect)
  | (stack, .value closable), t => stepValue stack closable t
  | (stack, .key done closable), t => stepKey stack done closable t
  | (stack, .colon done key), t => stepColon stack done key t
  | (stack, .scalar text), t => stepScalar float stack text t
  | (stack, .after v), t => stepAfter stack v t

/-- Nothing may be open at the end. -/
def readEnd : List Frame × Expect → Option Value
  | ([], .after v) => some v
  | ([], .scalar text) => scalar? float text.reverse
  | _ => none

def readTokens : List Frame × Expect → List Token → Option Value
  | s, [] => readEnd float s
  | s, t :: ts => (readStep float s t).bind fun s' => readTokens s' ts

/-- `json.loads` -/
def loads (b : List UInt8) : Option Value := (lex b).bind (readTokens float ([], .value false))

end Reader

section Pieces
variable {float : List UInt8 → Option Value}

/-- What may stand behind a value of a document without blanks. -/
def Closing : List Token → Prop
  | [] => True
  | t :: _ => t = .byte 0x2c ∨ t = .byte 0x5d ∨ t = .byte 0x7d

theorem closing_comma (ts : List Token) : Closing (.byte 0x2c :: ts) := Or.inl rfl

theorem closing_bracket (ts : List Token) : Closing (.byte 0x5d :: ts) := Or.inr (Or.inl rfl)

theorem closing_brace (ts : List Token) : Closing (.byte 0x7d :: ts) := Or.inr (Or.inr rfl)

/-- Wherever a value may begin, the text is read as `v`. -/
def Reads (float : List UInt8 → Option Value) (b : List UInt8) (v : Value) : Prop :=
  ∃ ts, Lexes b ts ∧ ∀ stack closable rest, Closing rest →
    readTokens float (stack, .value closable) (ts ++ rest) = readTokens float (stack, .after v) rest

theorem Reads.loads {b : List UInt8} {v : Value} (h : Reads float b v) : Json.loads float b = some v := by
  obtain ⟨ts, hlex, hread⟩ := h
  have hall := hread [] false [] trivial
  rw [List.append_nil] at hall
  rw [Json.loads, hlex.lex, Option.bind_some, hall]
  rfl

theorem Reads.string {b s : List UInt8} (h : Lexes b [.str s]) : Reads float b (.string s) :=
  ⟨[.str s], h, fun _ _ _ _ => rfl⟩

/-- A number or a name, which nothing but a delimiter ends. -/
theorem Reads.scalar {b : List UInt8} {v : Value} (hne : b ≠ []) (hb : ∀ x ∈ b, isDelimiter x = false ∧ x ≠ 0x22)
    (hv : scalar? float b = some v) : Reads float b v := by
  refine ⟨b.map .byte, .bytes (fun h => (hb _ h).2 rfl), ?_⟩
  intro stack closable rest hrest
  have hrun : ∀ (l text : List UInt8), (∀ x ∈ l, isDelimiter x = false) →
      readTokens float (stack, .scalar text) (l.map .byte ++ rest) =
        readTokens float (stack, .scalar (l.reverse ++ text)) rest := by
    intro l
    induction l with
    | nil => exact fun _ _ => rfl
    | cons x l ih =>
      intro text hl
      obtain ⟨hx, hl⟩ := List.forall_mem_cons.mp hl
      have hstep : readStep float (stack, .scalar text) (.byte x) = some (stack, .scalar (x :: text)) := by
        simp [readStep, stepScalar, hx]
      rw [List.map_cons, List.cons_append, readTokens, hstep, Option.bind_some, ih (x :: text) hl, List.reverse_cons,
        List.append_assoc, List.singleton_append]
  have hend : readTokens float (stack, .scalar b.reverse) rest = readTokens float (stack, .after v) rest := by
    cases rest with
    | nil => cases stack <;> simp [readTokens, readEnd, hv]
    | cons t rest =>
      have hstep : readStep float (stack, .scalar b.reverse) t = readStep float (stack, .after v) t := by
        rcases hrest with rfl | rfl | rfl <;> simp [readStep, stepScalar, isDelimiter, hv]
      rw [readTokens, hstep, readTokens]
  cases b with
  | nil => exact absurd rfl hne
  | cons x b =>
    obtain ⟨⟨hx, -⟩, hb⟩ := List.forall_mem_cons.mp hb
    have hstep : readStep float (stack, .value closable) (.byte x) = some (stack, .scalar [x]) := by
      simp only [isDelimiter, Bool.or_eq_false_iff, beq_eq_false_iff_ne] at hx
      simp [readStep, stepValue, isDelimiter, hx]
    rw [List.map_cons, List.cons_append, readTokens, hstep, Option.bind_some, hrun b [x] (fun y hy => (hb y hy).1),
      ← List.reverse_cons, hend]

/-- The items of an array that is open, up to its end. -/
theorem reads_items {items : List (List UInt8)} {vs : List Value} (hne : items ≠ [])
    (h : List.Forall₂ (Reads float) items vs) :
    ∃ ts, Lexes (separated items) ts ∧ ∀ stack done closable rest,
      readTokens float (.array done :: stack, .value closable) (ts ++ .byte 0x5d :: rest) =
        readTokens float (stack, .after (.array (done.reverse ++ vs))) rest := by
  induction h with
  | nil => exact absurd rfl hne
  | @cons b v items vs hb hrest ih =>
    obtain ⟨ts, hlex, hread⟩ := hb
    cases hrest with
    | nil =>
      rw [separated_singleton]
      refine ⟨ts, hlex, fun stack done closable rest => ?_⟩
      rw [hread _ _ _ (closing_bracket rest), ← List.reverse_cons]
      rfl
    | cons hb' hrest' =>
      obtain ⟨us, hlex', hread'⟩ := ih (List.cons_ne_nil _ _)
      rw [separated_cons]
      refine ⟨ts ++ .byte 0x2c :: us, hlex.append (.byte (by decide) hlex'), fun stack done closable rest => ?_⟩
      rw [List.append_assoc, List.cons_append, hread _ _ _ (closing_comma _)]
      change readTokens float (.array (v :: done) :: stack, .value false) (us ++ .byte 0x5d :: rest) = _
      rw [hread', List.reverse_cons, List.append_assoc, List.singleton_append]

theorem Reads.array {items : List (List UInt8)} {vs : List Value} (h : List.Forall₂ (Reads float) items vs) :
    Reads float (Json.array items) (.array vs) := by
  by_cases hne : items = []
  · subst hne
    obtain rfl := List.forall₂_nil_left_iff.mp h
    exact ⟨[.byte 0x5b, .byte 0x5d], .byte (by decide) (.byte (by decide) .nil), fun _ _ _ _ => rfl⟩
  · obtain ⟨ts, hlex, hread⟩ := reads_items hne h
    have hclose : Lexes [0x5d] [.byte 0x5d] := .byte (by decide) .nil
    refine ⟨.byte 0x5b :: (ts ++ [.byte 0x5d]), .byte (by decide) (hlex.append hclose), fun stack closable rest _ => ?_⟩
    rw [List.cons_append, List.append_assoc, List.singleton_append]
    exact hread stack [] true rest

/-- The members of an object that is open, up to its end. -/
theorem reads_members {fields : List (List UInt8 × List UInt8)} {members : List (List UInt8 × Value)}
    (hne : fields ≠ []) (hn : plainNames fields = true)
    (h : List.Forall₂ (fun f m => f.1 = m.1 ∧ Reads float f.2 m.2) fields members) :
    ∃ ts, Lexes (separated (fields.map (fun f => field f.1 f.2))) ts ∧ ∀ stack done closable rest,
      readTokens float (stack, .key done closable) (ts ++ .byte 0x7d :: rest) =
        readTokens float (stack, .after (.object (dict (done.reverse ++ members)))) rest := by
  induction h with
  | nil => exact absurd rfl hne
  | @cons f m fields members hf hrest ih =>
    obtain ⟨hname, ts, hlex, hread⟩ := hf
    obtain ⟨hplain, hns⟩ := Bool.and_eq_true_iff.mp hn
    have hfield : Lexes (field f.1 f.2) (.str m.1 :: .byte 0x3a :: ts) := by
      have hkey : Lexes (0x22 :: f.1 ++ [0x22]) [.str f.1] := lexes_plainString (by simpa using hplain)
      have hboth := hkey.append (.byte (x := 0x3a) (by decide) hlex)
      rw [hname] at hboth
      simpa [field, hname] using hboth
    -- the name, the colon and the value
    have hmember : ∀ stack done closable rest, Closing rest →
        readTokens float (stack, .key done closable) (.str m.1 :: .byte 0x3a :: ts ++ rest) =
          readTokens float (.member done m.1 :: stack, .after m.2) rest :=
      fun stack done _ rest hrest => hread (.member done m.1 :: stack) false rest hrest
    cases hrest with
    | nil =>
      rw [List.map_singleton, separated_singleton]
      refine ⟨_, hfield, fun stack done closable rest => ?_⟩
      rw [hmember _ _ _ _ (closing_brace rest), ← List.reverse_cons]
      rfl
    | cons hf' hrest' =>
      obtain ⟨us, hlex', hread'⟩ := ih (List.cons_ne_nil _ _) hns
      rw [List.map_cons, List.map_cons, separated_cons]
      refine ⟨_, hfield.append (.byte (by decide) hlex'), fun stack done closable rest => ?_⟩
      rw [List.append_assoc]
      refine (hmember _ _ _ _ (closing_comma _)).trans ?_
      change readTokens float (stack, .key (m :: done) false) (us ++ .byte 0x7d :: rest) = _
      rw [hread', List.reverse_cons, List.append_assoc, List.singleton_append]

/-- No name is there twice. -/
def distinctNames (fields : List (List UInt8 × List UInt8)) : Bool := decide (fields.map Prod.fst).Nodup

theorem Reads.object {fields : List (List UInt8 × List UInt8)} {members : List (List UInt8 × Value)}
    (hn : plainNames fields = true) (hnodup : distinctNames fields = true)
    (h : List.Forall₂ (fun f m => f.1 = m.1 ∧ Reads float f.2 m.2) fields members) :
    Reads float (Json.object fields) (.object members) := by
  by_cases hne : fields = []
  · subst hne
    obtain rfl := List.forall₂_nil_left_iff.mp h
    exact ⟨[.byte 0x7b, .byte 0x7d], .byte (by decide) (.byte (by decide) .nil), fun _ _ _ _ => rfl⟩
  · have hnames : fields.map Prod.fst = members.map Prod.fst := by
      rw [← List.forall₂_eq_eq_eq, List.forall₂_map_left_iff, List.forall₂_map_right_iff]
      exact h.imp (fun _ _ hf => hf.1)
    have hkeys : (members.map Prod.fst).Nodup := hnames ▸ of_decide_eq_true hnodup
    obtain ⟨ts, hlex, hread⟩ := reads_members hne hn h
    have hclose : Lexes [0x7d] [.byte 0x7d] := .byte (by decide) .nil
    refine ⟨.byte 0x7b :: (ts ++ [.byte 0x7d]), .byte (by decide) (hlex.append hclose), fun stack closable rest _ => ?_⟩
    have hall := hread stack [] true rest
    rw [List.reverse_nil, List.nil_append, dict_of_nodup hkeys] at hall
    rw [List.cons_append, List.append_assoc, List.singleton_append]
    exact hall

end Pieces

end Json
