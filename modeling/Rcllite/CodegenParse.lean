import Mathlib
import Rcllite.CodegenText
import Rcllite.MsgCodegen
import Rcllite.Lib.CppSyntax

/-! What C++ reads in the text of a generated `serialize`: the statements of each kind of member, and the method
around them. -/
namespace Rcllite.Codegen
open Interface Cpp

/-- What a member is made of, as its type in the file says. -/
inductive Elem where
  | prim (p : Prim)
  | string
  | nested (pkg nm : List Char)

/-- A name that may be filled in. -/
def Ident (w : List Char) : Prop := IsWord w ∧ classify w = .word w

def Elem.Named : Elem → Prop
  | .nested pkg nm => Ident pkg ∧ Ident nm
  | _ => True

section Statements

def var (x : String) : Expr := .name [x.toList]

def method (e : Expr) (m : String) : Expr := .member e m.toList

/-- `msg.name` -/
def memberExpr (name : List Char) : Expr := .member (var "msg") name

def sizeofExpr (p : Prim) : Expr := .sizeof [cppPrim p]

/-- `f.size() * sizeof(T)` -/
def bytesExpr (p : Prim) (f : Expr) : Expr := .mul (.call (method f "size")) (sizeofExpr p)

def inBraces (s : Stmt) : Stmt := .block (.seq s .skip)

/-- The statement that writes one element. -/
def writeStmt (f : Expr) : Elem → Stmt
  | .prim p => .expr (.call1 (.member (var "w") ("write_".toList ++ key p)) f)
  | .string => .expr (.call1 (method (var "w") "write_string") f)
  | .nested pkg nm => .expr (.call2 (.name [pkg, "msg".toList, nm, "serialize".toList]) f (var "w"))

def writeEachStmt (f : Expr) (e : Elem) : Stmt := .each "e".toList f (inBraces (writeStmt (var "e") e))

def alignStmt (n : ℕ) : Stmt := .expr (.call1 (method (var "w") "align_to") (.number n))

def writeLengthStmt (f : Expr) : Stmt :=
  .expr (.call1 (method (var "w") "write_uint32") (.cast ["uint32_t".toList] (.call (method f "size"))))

def writeAlignedStmt (f : Expr) (p : Prim) : Stmt :=
  .ifThen (.not (.call (method f "empty"))) (inBraces (.expr (.call3 (method (var "w") "write_aligned")
    (.call (method f "data")) (bytesExpr p f) (sizeofExpr p))))

def writeBytesStmt (f : Expr) (p : Prim) : Stmt :=
  .expr (.call2 (method (var "w") "write_bytes") (.call (method f "data")) (bytesExpr p f))

def serializeStmts (f : Expr) : Shape → Elem → List Stmt
  | .scalar, e => [writeStmt f e]
  | .seq, .prim p =>
    -- a vector of `bool` is packed and has no `data()`
    [alignStmt 4, writeLengthStmt f, if p = .bool then writeEachStmt f (.prim p) else writeAlignedStmt f p]
  | .seq, e => [alignStmt 4, writeLengthStmt f, writeEachStmt f e]
  | .array _, .prim p => [alignStmt p.align, writeBytesStmt f p]
  | .array _, e => [writeEachStmt f e]

end Statements

section Templates

theorem filled_append {t u : Text} : Text.Filled (t ++ u) ↔ Text.Filled t ∧ Text.Filled u :=
  ⟨fun h => ⟨fun w k hw => h w k (List.mem_append_left _ hw), fun w k hw => h w k (List.mem_append_right _ hw)⟩,
    fun h => h.1.append h.2⟩

theorem filled_lit (s : String) : Text.Filled (lit s) ↔ True :=
  iff_true_intro fun w k hw => by cases List.mem_singleton.mp hw

theorem filled_hole (w : List Char) : Text.Filled (hole w) ↔ Ident w := by
  constructor
  · exact fun h => h w _ List.mem_cons_self
  · intro h v k hv
    cases List.mem_singleton.mp hv
    exact h

theorem filled_align (p : Prim) : Text.Filled (numeral p.align) := by
  intro w k hw
  cases List.mem_singleton.mp hw
  refine ⟨⟨?_, ?_⟩, ?_⟩ <;> cases p <;> decide

theorem ident_key (p : Prim) : Ident (key p) := by
  refine ⟨⟨?_, ?_⟩, ?_⟩ <;> cases p <;> decide

theorem ident_cppPrim (p : Prim) : Ident (cppPrim p) := by
  refine ⟨⟨?_, ?_⟩, ?_⟩ <;> cases p <;> decide

end Templates

section Pieces

-- the method written for a message without members
example : readMethod "static void serialize(const M & msg, rcl::CdrWriter & w)\n\x7b\n  (void)msg;\n\x7d".toList =
    some ("serialize".toList, ⟨"msg".toList, "w".toList, .sequence [.expr (.discard (var "msg"))]⟩) := by
  cbv

theorem reads_newline : Reads (lit "\n    ") [] := .blank ((filled_lit _).mpr trivial) (by cbv)

theorem reads_align : Reads (lit "w.align_to(4);") [alignStmt 4] :=
  .stmt ((filled_lit _).mpr trivial) (by cbv) (fun rest => by cbv)

theorem reads_lines {t u v : Text} {a b c : Stmt} (ht : Reads t [a]) (hu : Reads u [b]) (hv : Reads v [c]) :
    Reads (joinLines [t, u, v]) [a, b, c] :=
  (ht.append reads_newline).append ((hu.append reads_newline).append hv)

variable {name : List Char} (hname : Ident name)
include hname

theorem reads_length : Reads (lit "w.write_uint32(static_cast<uint32_t>(" ++ (lit "msg." ++ hole name) ++ lit ".size()));")
    [writeLengthStmt (memberExpr name)] := by
  refine .stmt ?_ (by cbv) (fun rest => by cbv)
  simp only [filled_append, filled_lit, filled_hole, hname, and_true]

theorem reads_write_prim (p : Prim) : Reads (lit "w.write_" ++ hole (key p) ++ lit "(" ++ (lit "msg." ++ hole name) ++ lit ");")
    [writeStmt (memberExpr name) (.prim p)] := by
  have hkey := ident_key p
  simp only [writeStmt]
  generalize key p = s at hkey ⊢
  refine .stmt ?_ (by cbv) (fun rest => by cbv)
  simp only [filled_append, filled_lit, filled_hole, hname, hkey, and_true]

theorem reads_write_string : Reads (lit "w.write_string(" ++ (lit "msg." ++ hole name) ++ lit ");")
    [writeStmt (memberExpr name) .string] := by
  refine .stmt ?_ (by cbv) (fun rest => by cbv)
  simp only [filled_append, filled_lit, filled_hole, hname, and_true]

theorem reads_write_each_prim (p : Prim) : Reads (lit "for (const auto & e : " ++ (lit "msg." ++ hole name) ++
    lit ") \x7b w.write_" ++ hole (key p) ++ lit "(e); \x7d") [writeEachStmt (memberExpr name) (.prim p)] := by
  have hkey := ident_key p
  simp only [writeEachStmt, writeStmt]
  generalize key p = s at hkey ⊢
  refine .stmt ?_ (by cbv) (fun rest => by cbv)
  simp only [filled_append, filled_lit, filled_hole, hname, hkey, and_true]

theorem reads_write_each_string : Reads (lit "for (const auto & e : " ++ (lit "msg." ++ hole name) ++
    lit ") \x7b w.write_string(e); \x7d") [writeEachStmt (memberExpr name) .string] := by
  refine .stmt ?_ (by cbv) (fun rest => by cbv)
  simp only [filled_append, filled_lit, filled_hole, hname, and_true]

theorem reads_write_aligned (p : Prim) : Reads (lit "if (!" ++ (lit "msg." ++ hole name) ++ lit ".empty()) \x7b" ++
    lit " w.write_aligned(" ++ (lit "msg." ++ hole name) ++ lit ".data(), " ++ (lit "msg." ++ hole name) ++
    lit ".size() * sizeof(" ++ hole (cppPrim p) ++ lit "), sizeof(" ++ hole (cppPrim p) ++ lit ")); \x7d")
    [writeAlignedStmt (memberExpr name) p] := by
  have hprim := ident_cppPrim p
  unfold writeAlignedStmt bytesExpr sizeofExpr
  generalize cppPrim p = s at hprim ⊢
  refine .stmt ?_ (by cbv) (fun rest => by cbv)
  simp only [filled_append, filled_lit, filled_hole, hname, hprim, and_true]

theorem reads_write_bytes (p : Prim) : Reads (lit "w.align_to(" ++ numeral p.align ++ lit ");\n    " ++
    lit "w.write_bytes(" ++ (lit "msg." ++ hole name) ++ lit ".data(), " ++ (lit "msg." ++ hole name) ++
    lit ".size() * sizeof(" ++ hole (cppPrim p) ++ lit "));")
    [alignStmt p.align, writeBytesStmt (memberExpr name) p] := by
  have hprim := ident_cppPrim p
  have hnum := filled_align p
  unfold writeBytesStmt bytesExpr sizeofExpr
  generalize cppPrim p = s at hprim ⊢
  generalize p.align = n at hnum ⊢
  -- two statements in one template
  have hfirst : Reads (lit "w.align_to(" ++ numeral n ++ lit ");\n    ") [alignStmt n] := by
    refine .stmt ?_ (by cbv) (fun rest => by cbv)
    simp only [filled_append, filled_lit, hnum, and_true]
  have hsecond : Reads (lit "w.write_bytes(" ++ (lit "msg." ++ hole name) ++ lit ".data(), " ++
      (lit "msg." ++ hole name) ++ lit ".size() * sizeof(" ++ hole s ++ lit "));")
      [.expr (.call2 (method (var "w") "write_bytes") (.call (method (memberExpr name) "data"))
        (.mul (.call (method (memberExpr name) "size")) (.sizeof [s])))] := by
    refine .stmt ?_ (by cbv) (fun rest => by cbv)
    simp only [filled_append, filled_lit, filled_hole, hname, hprim, and_true]
  simpa only [List.append_assoc, List.singleton_append] using hfirst.append hsecond

section Nested
variable {pkg nm : List Char} (hpkg : Ident pkg) (hnm : Ident nm)
include hpkg hnm

theorem reads_write_nested : Reads (hole pkg ++ lit "::msg::" ++ hole nm ++ lit "::serialize(" ++
    (lit "msg." ++ hole name) ++ lit ", w);") [writeStmt (memberExpr name) (.nested pkg nm)] := by
  refine .stmt ?_ (by cbv) (fun rest => by cbv)
  simp only [filled_append, filled_lit, filled_hole, hname, hpkg, hnm, and_true]

theorem reads_write_each_nested : Reads (lit "for (const auto & e : " ++ (lit "msg." ++ hole name) ++ lit ") \x7b " ++
    hole pkg ++ lit "::msg::" ++ hole nm ++ lit "::serialize(e, w); \x7d")
    [writeEachStmt (memberExpr name) (.nested pkg nm)] := by
  refine .stmt ?_ (by cbv) (fun rest => by cbv)
  simp only [filled_append, filled_lit, filled_hole, hname, hpkg, hnm, and_true]

end Nested

end Pieces

section Members

/-- The type of a member, once the name of a nested type is split. -/
def elemOf (t : List Char) : Except ValueError Elem :=
  match prim? t with
  | some p => .ok (.prim p)
  | none =>
    if t = "string".toList then .ok .string
    else do
      let (pkg, nm) ← splitPkgType t
      .ok (.nested pkg nm)

/-- No array has a negative length. -/
def shapeOf (m : Interface.Member) : Option Shape :=
  if m.isSeq then some .seq
  else match m.fixedLen with
    | none => some .scalar
    | some n => if 0 ≤ n then some (.array n.toNat) else none

theorem elemOf_cases {t : List Char} {e : Elem} (h : elemOf t = .ok e) :
    (∃ p, prim? t = some p ∧ e = .prim p) ∨ (prim? t = none ∧ t = "string".toList ∧ e = .string) ∨
      (prim? t = none ∧ t ≠ "string".toList ∧ ∃ pkg nm, splitPkgType t = .ok (pkg, nm) ∧ e = .nested pkg nm) := by
  unfold elemOf at h
  cases hp : prim? t with
  | some p =>
    rw [hp] at h
    cases h
    exact .inl ⟨p, rfl, rfl⟩
  | none =>
    rw [hp] at h
    dsimp only at h
    by_cases hs : t = "string".toList
    · rw [if_pos hs] at h
      cases h
      exact .inr (.inl ⟨rfl, hs, rfl⟩)
    · rw [if_neg hs] at h
      cases hsplit : splitPkgType t with
      | error err =>
        rw [hsplit] at h
        cases h
      | ok x =>
        rw [hsplit] at h
        cases h
        exact .inr (.inr ⟨rfl, hs, x.1, x.2, rfl, rfl⟩)

variable {m : Interface.Member} {shape : Shape} {e : Elem}

theorem shapeOf_cases (h : shapeOf m = some shape) :
    (m.isSeq = true ∧ shape = .seq) ∨ (m.isSeq = false ∧ m.fixedLen = none ∧ shape = .scalar) ∨
      (m.isSeq = false ∧ m.fixedLen.isSome = true ∧ ∃ n : ℕ, m.fixedLen = some (n : ℤ) ∧ shape = .array n) := by
  unfold shapeOf at h
  cases hseq : m.isSeq with
  | true =>
    rw [hseq] at h
    cases h
    exact .inl ⟨rfl, rfl⟩
  | false =>
    rw [hseq] at h
    cases hlen : m.fixedLen with
    | none =>
      rw [hlen] at h
      cases h
      exact .inr (.inl ⟨rfl, rfl, rfl⟩)
    | some n =>
      rw [hlen] at h
      by_cases hn : 0 ≤ n
      · have hshape : some (Shape.array n.toNat) = some shape := (if_pos hn).symm.trans h
        cases hshape
        exact .inr (.inr ⟨rfl, rfl, n.toNat, congrArg some (Int.toNat_of_nonneg hn).symm, rfl⟩)
      · have hshape : none = some shape := (if_neg hn).symm.trans h
        cases hshape

variable (hname : Ident m.name) (he : elemOf m.rosType = .ok e) (hnamed : e.Named) (hs : shapeOf m = some shape)
include hname he hnamed hs

/-- What is written for a member is read as the statements of its shape and its type. -/
theorem reads_emitSerialize : ∃ t, emitSerialize m = .ok t ∧ Reads t (serializeStmts (memberExpr m.name) shape e) := by
  have hlines {t : Text} {s : Stmt} (ht : Reads t [s]) := reads_lines reads_align (reads_length hname) ht
  unfold emitSerialize
  rcases shapeOf_cases hs with ⟨hseq, rfl⟩ | ⟨hseq, hlen, rfl⟩ | ⟨hseq, hlen, n, -, rfl⟩ <;>
    rcases elemOf_cases he with ⟨p, hp, rfl⟩ | ⟨hp, ht, rfl⟩ | ⟨hp, ht, pkg, nm, hsplit, rfl⟩
  · by_cases hb : p = .bool
    · subst hb
      exact ⟨_, by simp only [hseq, hp, if_true]; rfl, hlines (reads_write_each_prim hname .bool)⟩
    · refine ⟨_, by simp only [hseq, hp, if_true, if_neg hb]; rfl, ?_⟩
      simp only [serializeStmts, if_neg hb]
      exact hlines (reads_write_aligned hname p)
  · exact ⟨_, by simp only [hseq, hp, if_true, if_pos ht]; rfl, hlines (reads_write_each_string hname)⟩
  · exact ⟨_, by simp only [hseq, hp, if_true, if_neg ht, hsplit]; rfl,
      hlines (reads_write_each_nested hname hnamed.1 hnamed.2)⟩
  · refine ⟨_, by simp only [hseq, hp, hlen]; rfl, reads_write_prim hname p⟩
  · refine ⟨_, by simp only [hseq, hp, hlen, if_pos ht]; rfl, reads_write_string hname⟩
  · refine ⟨_, by simp only [hseq, hp, hlen, if_neg ht, hsplit]; rfl, reads_write_nested hname hnamed.1 hnamed.2⟩
  · refine ⟨_, by simp only [hseq, hp, hlen, if_true]; rfl, reads_write_bytes hname p⟩
  · refine ⟨_, by simp only [hseq, hp, hlen, if_true, if_pos ht]; rfl, reads_write_each_string hname⟩
  · refine ⟨_, by simp only [hseq, hp, hlen, if_true, if_neg ht, hsplit]; rfl,
      reads_write_each_nested hname hnamed.1 hnamed.2⟩

end Members

section Methods

theorem blank_step {c : Char} (h : isBlank c = true) : lexStep .none c = ([], .none) := by
  simp only [isBlank, Bool.or_eq_true, beq_iff_eq] at h
  rcases h with ((rfl | rfl) | rfl) | rfl <;> decide

theorem cut_blank {s : String} (h : ∀ c ∈ s.toList, isBlank c = true) : cut .none (lit s) = ([], .none) := by
  have htext : ∀ cs : List Char, (∀ c ∈ cs, isBlank c = true) → cutText .none cs = ([], .none) := by
    intro cs hcs
    induction cs with
    | nil => rfl
    | cons c cs ih =>
      have hstep : lexStep .none c = ([], .none) := blank_step (hcs c List.mem_cons_self)
      rw [cutText, hstep]
      dsimp only
      rw [ih fun d hd => hcs d (List.mem_cons_of_mem c hd)]
      rfl
  rw [lit, cut, cutPart, htext _ h]
  rfl

theorem reads_blank {s : String} (h : ∀ c ∈ s.toList, isBlank c = true) : Reads (lit s) [] :=
  .blank ((filled_lit s).mpr trivial) (cut_blank h)

variable {indent : String} (hindent : ∀ c ∈ indent.toList, isBlank c = true)
include hindent

theorem reads_body_singleton {emit : Interface.Member → Except ValueError Text} {m : Interface.Member} {t : Text}
    {ss : List Stmt} (h : emit m = .ok t) (ht : Reads t ss) :
    ∃ u, bodyText emit indent [m] = .ok u ∧ u.chars.isEmpty = false ∧ Reads u ss := by
  refine ⟨_, by rw [bodyText, h]; rfl, ?_, ((reads_blank hindent).append (reads_blank (by decide))).append ht⟩
  simp [Text.chars, lit, Part.chars]

theorem reads_body_cons {emit : Interface.Member → Except ValueError Text} {m m' : Interface.Member}
    {ms : List Interface.Member} {t u : Text} {ss tt : List Stmt} (h : emit m = .ok t) (ht : Reads t ss)
    (h' : bodyText emit indent (m' :: ms) = .ok u) (hu : Reads u tt) :
    ∃ v, bodyText emit indent (m :: m' :: ms) = .ok v ∧ v.chars.isEmpty = false ∧ Reads v (ss ++ tt) := by
  have hbody : bodyText emit indent (m :: m' :: ms) = .ok (lit indent ++ lit "  " ++ t ++ lit "\n" ++ u) := by
    rw [bodyText, h, h']
    · rfl
    · exact List.cons_ne_nil _ _
  refine ⟨_, hbody, ?_, ?_⟩
  · simp [Text.chars, lit, Part.chars]
  · have hline := ((reads_blank hindent).append (reads_blank (s := "  ") (by decide))).append ht
    simpa only [List.nil_append, List.append_nil] using
      (hline.append (reads_blank (s := "\n") (by decide))).append hu

/-- The statements of a method whose message has no members. -/
theorem reads_void : Reads (lit indent ++ lit "  (void)msg;") [.expr (.discard (var "msg"))] :=
  (reads_blank hindent).append (.stmt ((filled_lit _).mpr trivial) (by cbv) (fun rest => by cbv))

omit hindent in
theorem parseSignature_serialize (rest : List Token) : parseSignature
    ((cut .none (lit "static void serialize(const M & msg, rcl::CdrWriter & w)\n" ++ lit "\x7b\n")).1 ++ rest) =
    some (("serialize".toList, "msg".toList, "w".toList), rest) := by
  cbv

theorem readMethod_serialize {body : Text} {ss : List Stmt} (h : Reads body ss) :
    readMethod (Text.chars (lit indent ++ lit "static void serialize(const M & msg, rcl::CdrWriter & w)\n" ++ lit indent ++
      lit "\x7b\n" ++ body ++ lit "\n" ++ lit indent ++ lit "\x7d")) =
      some ("serialize".toList, ⟨"msg".toList, "w".toList, .sequence ss⟩) := by
  have hfilled (s : String) : Text.Filled (lit s) := (filled_lit s).mpr trivial
  -- the indentation adds no token
  have hheader : cut .none (lit indent ++ (lit "static void serialize(const M & msg, rcl::CdrWriter & w)\n" ++
      (lit indent ++ lit "\x7b\n"))) =
      cut .none (lit "static void serialize(const M & msg, rcl::CdrWriter & w)\n" ++ lit "\x7b\n") := by
    have hsig : (cut .none (lit "static void serialize(const M & msg, rcl::CdrWriter & w)\n")).2 = .none := by cbv
    rw [cut_append, cut_blank hindent, cut_append_closed hsig, cut_append_closed hsig, cut_append .none (lit indent),
      cut_blank hindent]
    rfl
  have hclose : cut .none (lit "\n" ++ (lit indent ++ lit "\x7d")) = ([.punct '}'], .none) := by
    rw [cut_append, cut_blank (by decide), cut_append, cut_blank hindent]
    rfl
  have hmethod := readMethod_of_reads
    ((hfilled indent).append ((hfilled _).append ((hfilled indent).append (hfilled "\x7b\n")))) (by rw [hheader]; cbv)
    (fun rest => by rw [hheader]; exact parseSignature_serialize rest) h
    ((hfilled "\n").append ((hfilled indent).append (hfilled "\x7d"))) hclose
  simpa only [List.append_assoc] using hmethod

end Methods

end Rcllite.Codegen
