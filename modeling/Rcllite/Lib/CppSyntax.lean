import Rcllite.Lib.CppLexer

/-! Expressions, statements and functions of a fragment of C++, in which an object is read and a stream is
written, and the parser that reads them from tokens. -/
namespace Cpp

abbrev Name := List Char

inductive Expr where
  | name (path : List Name)
  | number (n : ℕ)
  | member (e : Expr) (field : Name)
  | call (f : Expr)
  | call1 (f a : Expr)
  | call2 (f a b : Expr)
  | call3 (f a b c : Expr)
  /-- `static_cast<T>(e)` -/
  | cast (ty : List Name) (e : Expr)
  | sizeof (ty : List Name)
  /-- `(void)e` -/
  | discard (e : Expr)
  | not (e : Expr)
  | mul (a b : Expr)
deriving DecidableEq, Repr

inductive Stmt where
  | skip
  | seq (s t : Stmt)
  | block (s : Stmt)
  | expr (e : Expr)
  | ifThen (c : Expr) (s : Stmt)
  /-- `for (const auto & x : range) s` -/
  | each (x : Name) (range : Expr) (s : Stmt)
deriving DecidableEq, Repr

/-- What a parser makes of the tokens, and the tokens behind it. -/
abbrev Parser (α : Type) := List Token → Option (α × List Token)

/-- `a::b::c` -/
def parsePath : Parser (List Name)
  | .word w :: .scope :: ts => (parsePath ts).map fun r => (w :: r.1, r.2)
  | .word w :: ts => some ([w], ts)
  | _ => none

mutual

/-- An expression without an operator in front, up to the operators behind it. -/
def parsePrimary : ℕ → Parser Expr
  | 0, _ => none
  | fuel + 1, ts =>
    match ts with
    | .keyword .kStaticCast :: .punct '<' :: ts =>
      match parsePath ts with
      | some (ty, .punct '>' :: .punct '(' :: ts) =>
        match parseExpr fuel ts with
        | some (e, .punct ')' :: ts) => some (.cast ty e, ts)
        | _ => none
      | _ => none
    | .keyword .kSizeof :: .punct '(' :: ts =>
      match parsePath ts with
      | some (ty, .punct ')' :: ts) => some (.sizeof ty, ts)
      | _ => none
    | .number n :: ts => some (.number n, ts)
    | .punct '(' :: ts =>
      match parseExpr fuel ts with
      | some (e, .punct ')' :: ts) => some (e, ts)
      | _ => none
    | ts => (parsePath ts).map fun r => (.name r.1, r.2)

/-- Accesses and calls behind an expression. -/
def parsePostfix : ℕ → Expr → Parser Expr
  | 0, _, _ => none
  | fuel + 1, e, ts =>
    match ts with
    | .punct '.' :: .word f :: ts => parsePostfix fuel (.member e f) ts
    | .punct '(' :: .punct ')' :: ts => parsePostfix fuel (.call e) ts
    | .punct '(' :: ts =>
      match parseExpr fuel ts with
      | some (a, .punct ')' :: ts) => parsePostfix fuel (.call1 e a) ts
      | some (a, .punct ',' :: ts) =>
        match parseExpr fuel ts with
        | some (b, .punct ')' :: ts) => parsePostfix fuel (.call2 e a b) ts
        | some (b, .punct ',' :: ts) =>
          match parseExpr fuel ts with
          | some (c, .punct ')' :: ts) => parsePostfix fuel (.call3 e a b c) ts
          | _ => none
        | _ => none
      | _ => none
    | ts => some (e, ts)

def parseUnary : ℕ → Parser Expr
  | 0, _ => none
  | fuel + 1, ts =>
    match ts with
    | .punct '!' :: ts => (parseUnary fuel ts).map fun r => (.not r.1, r.2)
    | .punct '(' :: .keyword .kVoid :: .punct ')' :: ts => (parseUnary fuel ts).map fun r => (.discard r.1, r.2)
    | ts =>
      match parsePrimary fuel ts with
      | some (e, ts) => parsePostfix fuel e ts
      | none => none

def parseExpr : ℕ → Parser Expr
  | 0, _ => none
  | fuel + 1, ts =>
    match parseUnary fuel ts with
    | some (a, .punct '*' :: ts) =>
      match parseUnary fuel ts with
      | some (b, ts) => some (.mul a b, ts)
      | none => none
    | r => r

end

mutual

def parseStmt : ℕ → Parser Stmt
  | 0, _ => none
  | fuel + 1, ts =>
    match ts with
    | .punct '{' :: ts =>
      match parseStmts fuel ts with
      | some (s, .punct '}' :: ts) => some (.block s, ts)
      | _ => none
    | .keyword .kIf :: .punct '(' :: ts =>
      match parseExpr fuel ts with
      | some (c, .punct ')' :: ts) => (parseStmt fuel ts).map fun r => (.ifThen c r.1, r.2)
      | _ => none
    | .keyword .kFor :: .punct '(' :: .keyword .kConst :: .keyword .kAuto :: .punct '&' :: .word x :: .punct ':' :: ts =>
      match parseExpr fuel ts with
      | some (range, .punct ')' :: ts) => (parseStmt fuel ts).map fun r => (.each x range r.1, r.2)
      | _ => none
    | ts =>
      match parseExpr fuel ts with
      | some (e, .punct ';' :: ts) => some (.expr e, ts)
      | _ => none

/-- The statements up to the end of the block. -/
def parseStmts : ℕ → Parser Stmt
  | 0, _ => none
  | fuel + 1, ts =>
    match ts with
    | .punct '}' :: ts => some (.skip, .punct '}' :: ts)
    | ts =>
      match parseStmt fuel ts with
      | some (s, ts) => (parseStmts fuel ts).map fun r => (.seq s r.1, r.2)
      | none => none

end

/-- How deep expressions and statements may be nested. -/
def nestingLimit : ℕ := 32

/-- The statements of a function, at most `n`. -/
def parseBody : ℕ → Parser Stmt
  | _, .punct '}' :: ts => some (.skip, .punct '}' :: ts)
  | 0, _ => none
  | n + 1, ts =>
    match parseStmt nestingLimit ts with
    | some (s, ts) => (parseBody n ts).map fun r => (.seq s r.1, r.2)
    | none => none

/-- A function `static void f(const T & object, S & stream) { body }`. -/
structure Method where
  object : Name
  stream : Name
  body : Stmt
deriving DecidableEq, Repr

/-- The name of the function and its parameters, up to the brace before the body. -/
def parseSignature : Parser (Name × Name × Name)
  | .keyword .kStatic :: .keyword .kVoid :: .word f :: .punct '(' ::
      .keyword .kConst :: .word _ :: .punct '&' :: .word x :: .punct ',' :: ts =>
    match parsePath ts with
    | some (_, .punct '&' :: .word y :: .punct ')' :: .punct '{' :: ts) => some ((f, x, y), ts)
    | _ => none
  | _ => none

def parseMethod (ts : List Token) : Option (Name × Method) := do
  let ((f, object, stream), ts) ← parseSignature ts
  match parseBody ts.length ts with
  | some (body, [.punct '}']) => some (f, ⟨object, stream, body⟩)
  | _ => none

/-- The function that stands in a text. -/
def readMethod (text : List Char) : Option (Name × Method) := parseMethod (lex text)

/-- The statements of a block, one after the other. -/
def Stmt.sequence (ss : List Stmt) : Stmt := ss.foldr .seq .skip

example : readMethod "static void f(const T & x, S & s) \x7b if (!x.a.empty()) \x7b s.put(2 * sizeof(int)); \x7d \x7d".toList =
    some ("f".toList, ⟨"x".toList, "s".toList, .sequence [.ifThen
      (.not (.call (.member (.member (.name ["x".toList]) "a".toList) "empty".toList)))
      (.block (.sequence [.expr (.call1 (.member (.name ["s".toList]) "put".toList)
        (.mul (.number 2) (.sizeof ["int".toList])))]))]⟩) := by
  decide +kernel

section Reading

/-- No statement starts where a block ends. -/
theorem parseStmt_close (ts : List Token) : parseStmt nestingLimit (.punct '}' :: ts) = none := rfl

theorem parseBody_cons {ts rest : List Token} {s : Stmt} (h : parseStmt nestingLimit ts = some (s, rest)) (n : ℕ) :
    parseBody (n + 1) ts = (parseBody n rest).map fun r => (.seq s r.1, r.2) := by
  have hopen : ∀ ts', ts ≠ .punct '}' :: ts' := by
    rintro ts' rfl
    rw [parseStmt_close] at h
    cases h
  rw [parseBody]
  · rw [h]
  · exact fun ts' hts => hopen ts' hts

/-- The text is read as these statements, whatever stands behind it. -/
structure Reads (t : Text) (ss : List Stmt) : Prop where
  filled : t.Filled
  ends : (cut .none t).2 = .none
  length : ss.length ≤ (cut .none t).1.length
  parsed : ∀ n rest, parseBody (n + ss.length) ((cut .none t).1 ++ rest) =
    (parseBody n rest).map fun r => (ss.foldr .seq r.1, r.2)

theorem cut_append_closed {t : Text} (h : (cut .none t).2 = .none) (u : Text) :
    cut .none (t ++ u) = ((cut .none t).1 ++ (cut .none u).1, (cut .none u).2) := by
  rw [cut_append, h]

theorem Text.Filled.append {t u : Text} (ht : t.Filled) (hu : u.Filled) : Text.Filled (t ++ u) :=
  fun w k hw => (List.mem_append.mp hw).elim (ht w k) (hu w k)

theorem Reads.append {t u : Text} {ss tt : List Stmt} (ht : Reads t ss) (hu : Reads u tt) :
    Reads (t ++ u) (ss ++ tt) := by
  have hcut := cut_append_closed ht.ends u
  refine ⟨ht.filled.append hu.filled, ?_, ?_, fun n rest => ?_⟩
  · rw [hcut, hu.ends]
  · have hlen := ht.length
    have hlen' := hu.length
    rw [hcut, List.length_append, List.length_append]
    omega
  · have hcount : n + (ss ++ tt).length = n + tt.length + ss.length := by
      rw [List.length_append]
      omega
    rw [hcount, hcut, List.append_assoc, ht.parsed, hu.parsed, Option.map_map]
    simp only [List.foldr_append]
    rfl

theorem Reads.stmt {t : Text} {s : Stmt} (hfilled : t.Filled) (hends : (cut .none t).2 = .none)
    (h : ∀ rest, parseStmt nestingLimit ((cut .none t).1 ++ rest) = some (s, rest)) : Reads t [s] := by
  refine ⟨hfilled, hends, ?_, fun n rest => parseBody_cons (h rest) n⟩
  by_contra hlen
  have hnil : (cut .none t).1 = [] := List.length_eq_zero_iff.mp (by
    rw [List.length_singleton] at hlen
    omega)
  have hnone := h []
  rw [hnil] at hnone
  cases hnone

/-- Blanks are read as nothing. -/
theorem Reads.blank {t : Text} (hfilled : t.Filled) (h : cut .none t = ([], .none)) : Reads t [] := by
  refine ⟨hfilled, ?_, Nat.zero_le _, fun n rest => ?_⟩
  · rw [h]
  · rw [h]
    exact Option.map_id'.symm

theorem parseBody_close (n : ℕ) (ts : List Token) : parseBody n (.punct '}' :: ts) = some (.skip, .punct '}' :: ts) := by
  cases n <;> rfl

/-- A function is read when its signature, its statements and the brace behind them are. -/
theorem readMethod_of_reads {header t close : Text} {ss : List Stmt} {f object stream : Name}
    (hheader : header.Filled) (hends : (cut .none header).2 = .none)
    (hsig : ∀ rest, parseSignature ((cut .none header).1 ++ rest) = some ((f, object, stream), rest))
    (ht : Reads t ss) (hclose : close.Filled) (hbrace : cut .none close = ([.punct '}'], .none)) :
    readMethod (Text.chars (header ++ (t ++ close))) = some (f, ⟨object, stream, .sequence ss⟩) := by
  have hlex : lex (Text.chars (header ++ (t ++ close))) = (cut .none header).1 ++ ((cut .none t).1 ++ [.punct '}']) := by
    rw [lex_template (hheader.append (ht.filled.append hclose)), cut_append_closed hends, cut_append_closed ht.ends, hbrace]
    exact List.append_nil _
  -- one statement takes at least one token, so the tokens bound the statements
  have hbody : parseBody ((cut .none t).1 ++ [Token.punct '}']).length ((cut .none t).1 ++ [.punct '}']) =
      some (.sequence ss, [.punct '}']) := by
    obtain ⟨n, hn⟩ := Nat.exists_eq_add_of_le' (Nat.le_succ_of_le ht.length)
    have hcount : ((cut .none t).1 ++ [Token.punct '}']).length = n + ss.length := by
      rw [List.length_append, List.length_singleton, ← hn]
    rw [hcount, ht.parsed, parseBody_close]
    rfl
  rw [readMethod, hlex, parseMethod, hsig]
  dsimp only [Option.bind_eq_bind, Option.bind_some]
  rw [hbody]
  rfl

end Reading

end Cpp
