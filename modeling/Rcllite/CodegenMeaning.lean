import Rcllite.CodegenParse
import Rcllite.Lib.CppSemantics

/-! What the text of a generated `serialize` does, read as C++: on a writer it has the effect of the embedded
method of the schema. -/
namespace Rcllite
open Cpp Codegen

/-- The C++ type that `CPP_PRIM` names. -/
def Prim.scalar : Prim → Scalar
  | .bool => .bool
  | .byte | .char | .uint8 => .uint8
  | .float32 => .float
  | .float64 => .double
  | .int8 => .int8
  | .int16 => .int16
  | .int32 => .int32
  | .int64 => .int64
  | .uint16 => .uint16
  | .uint32 => .uint32
  | .uint64 => .uint64

theorem scalar?_cppPrim (p : Prim) : scalar? [cppPrim p] = some p.scalar := by
  cases p <;> rfl

theorem Prim.scalar_size (p : Prim) : p.scalar.size = p.sizeof := by
  cases p <;> rfl

section Objects

def Prim.obj (p : Prim) (v : p.Val) : Obj := .scalar p.scalar (p.toBytes v)

def Shape.obj {T : Type} (elem : T → Obj) : (shape : Shape) → shape.Val T → Obj
  | .scalar, v => elem v
  | .seq, (v : List T) => .container (v.map elem)
  | .array _, (v : List.Vector T _) => .container (v.toList.map elem)

mutual

/-- The C++ object that holds a value. -/
def RosType.obj : (t : RosType) → t.Val → Obj
  | .prim p, v => p.obj v
  | .string, (s : List UInt8) => .string s
  | .nested _ _ ms, v => .struct (ms.fields v)

def Members.fields : (ms : Members) → ms.Val → List (Name × Obj)
  | .nil, _ => []
  | .cons name shape t rest, v => (name.toList, shape.obj t.obj v.1) :: rest.fields v.2

end

def Members.names : Members → List String
  | .nil => []
  | .cons name _ _ rest => name :: rest.names

def Members.types : Members → List RosType
  | .nil => []
  | .cons _ _ t rest => t :: rest.types

/-- The bytes of a container are counted by a `size_t`. -/
def BytesCounted (t : RosType) (vs : List t.Val) : Prop :=
  match t with
  | .prim p => vs.length*p.sizeof < 2^64
  | _ => True

def Shape.InMemory (t : RosType) (elem : t.Val → Prop) : (shape : Shape) → shape.Val t.Val → Prop
  | .scalar, v => elem v
  | .seq, (v : List t.Val) => BytesCounted t v ∧ ∀ x ∈ v, elem x
  | .array _, (v : List.Vector t.Val _) => BytesCounted t v.toList ∧ ∀ x ∈ v.toList, elem x

mutual

/-- The sizes that an object in memory can have. -/
def RosType.InMemory : (t : RosType) → t.Val → Prop
  | .prim _, _ => True
  | .string, _ => True
  | .nested _ _ ms, v => ms.InMemory v

def Members.InMemory : (ms : Members) → ms.Val → Prop
  | .nil, _ => True
  | .cons _ shape t rest, v => shape.InMemory t t.InMemory v.1 ∧ rest.InMemory v.2

end

mutual

def RosType.depth : RosType → ℕ
  | .prim _ => 0
  | .string => 0
  | .nested _ _ ms => ms.depth + 1

/-- How deep the calls of nested methods go. -/
def Members.depth : Members → ℕ
  | .nil => 0
  | .cons _ _ t rest => max t.depth rest.depth

end

theorem Members.depth_of_mem : (ms : Members) → ∀ t ∈ ms.types, t.depth ≤ ms.depth
  | .nil => nofun
  | .cons _ _ _ rest => fun u hu => (List.mem_cons.mp hu).elim
      (fun h => h ▸ le_max_left _ _) (fun h => (rest.depth_of_mem u h).trans (le_max_right _ _))

theorem Members.fields_keys : (ms : Members) → (v : ms.Val) → ∀ x ∈ ms.fields v, ∃ n ∈ ms.names, x.1 = n.toList
  | .nil, _ => nofun
  | .cons name _ _ rest, v => fun x hx => (List.mem_cons.mp hx).elim
      (fun h => ⟨name, List.mem_cons_self, h ▸ rfl⟩)
      (fun h => (rest.fields_keys v.2 x h).imp fun _ hn => ⟨List.mem_cons_of_mem _ hn.1, hn.2⟩)

/-- A struct whose members have different names is read by name. -/
theorem Members.lookup_fields : (ms : Members) → ms.names.Nodup → (v : ms.Val) → ∀ x ∈ ms.fields v,
    (ms.fields v).lookup x.1 = some x.2
  | .nil, _, _ => nofun
  | .cons name shape t rest, hnodup, v => by
    intro x hx
    have hcons := List.nodup_cons.mp hnodup
    rcases List.mem_cons.mp hx with rfl | hx
    · exact List.lookup_cons_self
    · -- a later member has another name, so the lookup passes the first
      obtain ⟨n, hn, hkey⟩ := rest.fields_keys v.2 x hx
      have hne : (x.1 == name.toList) = false := by
        refine beq_eq_false_iff_ne.mpr fun h => hcons.1 ?_
        rwa [← String.toList_injective (hkey.symm.trans h)]
      change List.lookup x.1 ((name.toList, _) :: rest.fields v.2) = _
      rw [List.lookup_cons, hne]
      exact rest.lookup_fields hcons.2 v.2 x hx

end Objects

section Writer

/-- The methods of `rcl::CdrWriter` that the generated text calls. A bulk copy stays inside of its source. -/
def writerHost : Host CdrWriter := fun m args w =>
  if m = "align_to".toList then match args with
    | [.number n] => some (w.alignTo n)
    | _ => none
  else if m = "write_bytes".toList then match args with
    | [.pointer bs, .number n] => if n ≤ bs.length then some (w.writeBytes (bs.take n)) else none
    | _ => none
  else if m = "write_aligned".toList then match args with
    | [.pointer bs, .number n, .number alignment] =>
      if n ≤ bs.length then some (w.writeAligned (bs.take n) alignment) else none
    | _ => none
  else if m = "write_string".toList then match args with
    | [.obj (.string s)] => some (w.writeString s)
    | _ => none
  else match primitives.find? fun p => "write_".toList ++ Interface.key p = m with
    | some p => match args with
      | [.obj (.scalar k rep)] => if k = p.scalar then some (w.writePrim p (p.ofBytes rep)) else none
      | _ => none
    | none => none

theorem writerHost_writePrim (p : Prim) (rep : List UInt8) (w : CdrWriter) :
    writerHost ("write_".toList ++ Interface.key p) [.obj (.scalar p.scalar rep)] w = some (w.writePrim p (p.ofBytes rep)) := by
  cases p <;> rfl

theorem writerHost_writeBytes (bs : List UInt8) (w : CdrWriter) :
    writerHost "write_bytes".toList [.pointer bs, .number bs.length] w = some (w.writeBytes bs) := by
  change (if bs.length ≤ bs.length then some (w.writeBytes (bs.take bs.length)) else none) = _
  rw [if_pos le_rfl, List.take_length]

theorem writerHost_writeAligned (bs : List UInt8) (alignment : ℕ) (w : CdrWriter) :
    writerHost "write_aligned".toList [.pointer bs, .number bs.length, .number alignment] w =
      some (w.writeAligned bs alignment) := by
  change (if bs.length ≤ bs.length then some (w.writeAligned (bs.take bs.length) alignment) else none) = _
  rw [if_pos le_rfl, List.take_length]

end Writer

section Statements
variable {funs : Functions CdrWriter} {env : Env} {f : Expr} {w : CdrWriter}

theorem eval_var (x : String) : eval env (var x) = env.lookup x.toList := rfl

theorem exec_inBraces (s : Stmt) : exec writerHost funs (inBraces s) env w = exec writerHost funs s env w :=
  Option.bind_fun_some (exec writerHost funs s env w)

theorem exec_inSequence (s : Stmt) : exec writerHost funs (.sequence [s]) env w = exec writerHost funs s env w :=
  Option.bind_fun_some (exec writerHost funs s env w)

theorem eval_method {m : String} {elems : List Obj} (hf : eval env f = some (.obj (.container elems))) :
    eval env (.call (method f m)) = inspect m.toList elems := by
  rw [method, eval, hf]
  rfl

theorem reps_map (p : Prim) (vs : List p.Val) : (vs.map p.obj).mapM Obj.rep? = some (vs.map p.toBytes) := by
  induction vs with
  | nil => rfl
  | cons v vs ih =>
    rw [List.map_cons, List.mapM_cons, ih]
    rfl

section Containers
variable {p : Prim} {vs : List p.Val} (hf : eval env f = some (.obj (.container (vs.map p.obj))))
include hf

theorem eval_data : eval env (.call (method f "data")) = some (.pointer (vs.flatMap p.toBytes)) := by
  rw [eval_method hf]
  change (List.mapM Obj.rep? (vs.map p.obj)).map (fun reps => Value.pointer reps.flatten) = _
  rw [reps_map, Option.map_some, List.flatMap_def]

theorem eval_bytes (hcount : vs.length*p.sizeof < 2^64) :
    eval env (bytesExpr p f) = some (.number (vs.flatMap p.toBytes).length) := by
  have hlen : (vs.flatMap p.toBytes).length = vs.length*p.sizeof := by
    simp only [List.length_flatMap, Prim.toBytes_length, List.map_const', List.sum_replicate_nat]
  have hsize : eval env (.call (method f "size")) = some (.number vs.length) := by
    rw [eval_method hf]
    change some (Value.number (vs.map p.obj).length) = _
    rw [List.length_map]
  rw [bytesExpr, eval, hsize, sizeofExpr, eval, scalar?_cppPrim]
  change some (Value.number (vs.length*p.scalar.size % 2^64)) = _
  rw [p.scalar_size, Nat.mod_eq_of_lt hcount, hlen]

end Containers

variable (hw : env.lookup "w".toList = some .stream)
include hw

theorem perform_writer1 {m : Name} {a : Expr} {x : Value} (ha : eval env a = some x) :
    perform writerHost funs env (.call1 (.member (var "w") m) a) w = writerHost m [x] w := by
  rw [perform, eval_var, hw]
  simp only [List.mapM_cons, List.mapM_nil, ha, Option.bind_eq_bind, Option.bind_some, Option.pure_def]
  rfl

theorem perform_writer2 {m : Name} {a b : Expr} {x y : Value} (ha : eval env a = some x) (hb : eval env b = some y) :
    perform writerHost funs env (.call2 (.member (var "w") m) a b) w = writerHost m [x, y] w := by
  rw [perform, eval_var, hw]
  simp only [List.mapM_cons, List.mapM_nil, ha, hb, Option.bind_eq_bind, Option.bind_some, Option.pure_def]
  rfl

theorem perform_writer3 {m : Name} {a b c : Expr} {x y z : Value} (ha : eval env a = some x)
    (hb : eval env b = some y) (hc : eval env c = some z) :
    perform writerHost funs env (.call3 (.member (var "w") m) a b c) w = writerHost m [x, y, z] w := by
  rw [perform, eval_var, hw]
  simp only [List.mapM_cons, List.mapM_nil, ha, hb, hc, Option.bind_eq_bind, Option.bind_some, Option.pure_def]
  rfl

theorem exec_align (n : ℕ) : exec writerHost funs (alignStmt n) env w = some (w.alignTo n) := by
  rw [alignStmt, exec_expr]
  exact (perform_writer1 hw (x := .number n) rfl).trans rfl

/-- The length on the wire is the low word of the size. -/
theorem exec_writeLength {elems : List Obj} (hf : eval env f = some (.obj (.container elems))) :
    exec writerHost funs (writeLengthStmt f) env w = some (w.writeUint32 (BitVec.ofNat 32 elems.length)) := by
  have hcast : eval env (.cast ["uint32_t".toList] (.call (method f "size"))) =
      some (.obj (.scalar .uint32 (LittleEndian.toBytes 4 elems.length))) := by
    rw [eval, eval_method hf]
    rfl
  have hword : Prim.ofBytes .uint32 (LittleEndian.toBytes 4 elems.length) = BitVec.ofNat 32 elems.length := by
    change BitVec.ofNat 32 (LittleEndian.ofBytes (LittleEndian.toBytes 4 elems.length)) = _
    rw [LittleEndian.ofBytes_toBytes]
    apply BitVec.eq_of_toNat_eq
    rw [BitVec.toNat_ofNat, BitVec.toNat_ofNat]
    omega
  rw [writeLengthStmt, exec_expr]
  refine (perform_writer1 hw hcast).trans ?_
  change writerHost ("write_".toList ++ Interface.key .uint32) [.obj (.scalar (Prim.scalar .uint32) _)] w = _
  rw [writerHost_writePrim, hword]
  rfl

theorem exec_writeAligned {p : Prim} {vs : List p.Val} (hp : p ≠ .bool) (hcount : vs.length*p.sizeof < 2^64)
    (hf : eval env f = some (.obj (.container (vs.map p.obj)))) :
    exec writerHost funs (writeAlignedStmt f p) env w = some (serializePrimSeq p vs w) := by
  -- an empty vector is not copied from, and no padding is written for it
  have hempty : eval env (.not (.call (method f "empty"))) = some (.flag !vs.isEmpty) := by
    rw [eval, eval_method hf]
    change some (Value.flag !(vs.map p.obj).isEmpty) = _
    rw [List.isEmpty_map]
  have hsizeof : eval env (sizeofExpr p) = some (.number p.sizeof) := by
    rw [sizeofExpr, eval, scalar?_cppPrim, Option.map_some, p.scalar_size]
  rw [writeAlignedStmt, exec_ifThen hempty, exec_inBraces, exec_expr, method,
    perform_writer3 hw (eval_data hf) (eval_bytes hf hcount) hsizeof, writerHost_writeAligned, serializePrimSeq, if_neg hp]
  cases vs.isEmpty <;> rfl

theorem exec_writeBytes {p : Prim} {vs : List p.Val} (hcount : vs.length*p.sizeof < 2^64)
    (hf : eval env f = some (.obj (.container (vs.map p.obj)))) :
    exec writerHost funs (writeBytesStmt f p) env w = some (w.writeBytes (vs.flatMap p.toBytes)) := by
  rw [writeBytesStmt, exec_expr, method, perform_writer2 hw (eval_data hf) (eval_bytes hf hcount), writerHost_writeBytes]

/-- A sequence is written as its length and what stands behind it. -/
theorem exec_behindLength {α : Type} {obj : α → Obj} {vs : List α} {b : Stmt} {g : CdrWriter → CdrWriter}
    (hf : eval env f = some (.obj (.container (vs.map obj))))
    (hb : ∀ w, exec writerHost funs b env w = some (g w)) :
    exec writerHost funs (.sequence [alignStmt 4, writeLengthStmt f, b]) env w =
      some (g ((w.alignTo 4).writeUint32 (BitVec.ofNat 32 vs.length))) := by
  rw [exec_sequence_cons, exec_align hw, Option.bind_some, exec_sequence_cons, exec_writeLength hw hf, Option.bind_some,
    List.length_map, exec_sequence_cons, hb]
  rfl

end Statements

section Members

def RosType.elem : RosType → Elem
  | .prim p => .prim p
  | .string => .string
  | .nested package name _ => .nested package.toList name.toList

/-- The functions of a program do for a nested type what its embedded method does. -/
def RosType.Runs (funs : Functions CdrWriter) : RosType → Prop
  | .nested package name ms => ∃ run, funs [package.toList, "msg".toList, name.toList, "serialize".toList] = some run ∧
      ∀ v w, ms.InMemory v → run (.struct (ms.fields v)) w = some (ms.serialize v w)
  | _ => True

variable {funs : Functions CdrWriter} {env : Env} {f : Expr} {w : CdrWriter} {t : RosType}
  (hw : env.lookup "w".toList = some .stream) (ht : t.Runs funs)
include hw ht

theorem exec_writeStmt {v : t.Val} (hv : t.InMemory v) (hf : eval env f = some (.obj (t.obj v))) :
    exec writerHost funs (writeStmt f t.elem) env w = some (t.serialize v w) := by
  cases t with
  | prim p =>
    refine (perform_writer1 hw hf).trans ?_
    change writerHost _ [.obj (.scalar p.scalar (p.toBytes v))] w = _
    rw [writerHost_writePrim]
    exact congrArg (fun x => some (CdrWriter.writePrim p x w)) (Prim.ofBytes_toBytes p v)
  | string => exact perform_writer1 hw hf
  | nested package name ms =>
    obtain ⟨run, hrun, hspec⟩ := ht
    have hcall : exec writerHost funs (writeStmt f (RosType.nested package name ms).elem) env w =
        callFunction funs [package.toList, "msg".toList, name.toList, "serialize".toList] (eval env f)
          (eval env (var "w")) w := rfl
    rw [hcall, hf, eval_var, hw]
    change (funs _).bind _ = _
    rw [hrun]
    exact hspec v w hv

theorem exec_writeEach {vs : List t.Val} (hvs : ∀ v ∈ vs, t.InMemory v)
    (hf : eval env f = some (.obj (.container (vs.map t.obj)))) :
    exec writerHost funs (writeEachStmt f t.elem) env w = some (writeEach t.serialize vs w) := by
  refine exec_each hf fun v hv s => ?_
  rw [exec_inBraces]
  refine exec_writeStmt ?_ ht (hvs v hv) ?_
  · exact hw
  · rfl

theorem exec_serializeStmts {shape : Shape} {v : shape.Val t.Val} (hv : shape.InMemory t t.InMemory v)
    (hf : eval env f = some (.obj (shape.obj t.obj v))) :
    exec writerHost funs (.sequence (serializeStmts f shape t.elem)) env w =
      some (emitSerialize t t.serialize shape v w) := by
  cases shape with
  | scalar =>
    rw [serializeStmts, exec_sequence_cons, exec_writeStmt hw ht hv hf]
    rfl
  | seq =>
    obtain ⟨hcount, hvs⟩ := hv
    cases t with
    | prim p =>
      by_cases hp : p = .bool
      · subst hp
        exact exec_behindLength hw hf fun w => exec_writeEach hw ht hvs hf
      · rw [RosType.elem, serializeStmts, if_neg hp]
        exact exec_behindLength hw hf fun w => exec_writeAligned hw hp hcount hf
    | string => exact exec_behindLength hw hf fun w => exec_writeEach hw ht hvs hf
    | nested package name ms => exact exec_behindLength hw hf fun w => exec_writeEach hw ht hvs hf
  | array n =>
    obtain ⟨hcount, hvs⟩ := hv
    cases t with
    | prim p =>
      rw [RosType.elem, serializeStmts, exec_sequence_cons, exec_align hw, Option.bind_some, exec_sequence_cons,
        exec_writeBytes hw hcount hf]
      rfl
    | string => exact (exec_inSequence _).trans (exec_writeEach hw ht hvs hf)
    | nested package name ms => exact (exec_inSequence _).trans (exec_writeEach hw ht hvs hf)

end Members

section Messages

/-- The statements for the members, one after the other. -/
def Members.stmts : Members → List Stmt
  | .nil => []
  | .cons name shape t rest => serializeStmts (memberExpr name.toList) shape t.elem ++ rest.stmts

/-- The statements of the method. -/
def Members.bodyStmts : Members → List Stmt
  | .nil => [.expr (.discard (var "msg"))]
  | ms => ms.stmts

/-- A member of a message file that has this name, shape and type. -/
structure MemberFor (name : String) (shape : Shape) (t : RosType) (m : Interface.Member) : Prop where
  name_eq : m.name = name.toList
  ident : Ident m.name
  shape_eq : shapeOf m = some shape
  elem_eq : elemOf m.rosType = .ok t.elem
  named : t.elem.Named

/-- The definitions of the messages, by package and name. -/
abbrev Definitions := List Char → List Char → Option Interface.MsgDef

mutual

def RosType.Described (defs : Definitions) : RosType → Prop
  | .prim _ => True
  | .string => True
  | .nested package name ms => ∃ d, defs package.toList name.toList = some d ∧ ms.names.Nodup ∧ ms.Described defs d.members

/-- The schema of a list of members, in which every nested type has a definition. -/
def Members.Described (defs : Definitions) : Members → List Interface.Member → Prop
  | .nil, members => members = []
  | .cons name shape t rest, members =>
    ∃ m tail, members = m :: tail ∧ MemberFor name shape t m ∧ t.Described defs ∧ rest.Described defs tail

end

/-- The function of a name in the struct of a message. -/
def structMethod (d : Interface.MsgDef) (f : Name) : Option Method :=
  match serializeMethod d "  " with
  | .ok text => match readMethod text.chars with
    | some (g, m) => if g = f then some m else none
    | none => none
  | .error _ => none

/-- The functions that the headers of the messages define. -/
def program (defs : Definitions) : List Name → Option Method
  | [pkg, scope, nm, f] => if scope = "msg".toList then (defs pkg nm).bind (structMethod · f) else none
  | _ => none

variable {defs : Definitions}

theorem Members.Described.types : {ms : Members} → {members : List Interface.Member} → ms.Described defs members →
    ∀ t ∈ ms.types, t.Described defs
  | .nil, _, _ => nofun
  | .cons _ _ _ _, _, h => fun u hu => by
    obtain ⟨m, tail, -, -, ht, hrest⟩ := h
    rcases List.mem_cons.mp hu with rfl | hu
    · exact ht
    · exact hrest.types u hu

section Text
variable {indent : String} (hindent : ∀ c ∈ indent.toList, isBlank c = true)
include hindent

theorem Members.Described.reads_body : {ms : Members} → {members : List Interface.Member} →
    ms.Described defs members → members ≠ [] →
    ∃ t, bodyText Codegen.emitSerialize indent members = .ok t ∧ t.chars.isEmpty = false ∧ Reads t ms.stmts
  | .nil, _, h, hne => absurd h hne
  | .cons name shape t rest, _, h, _ => by
    obtain ⟨m, tail, rfl, hm, -, hrest⟩ := h
    obtain ⟨text, htext, hreads⟩ := reads_emitSerialize hm.ident hm.elem_eq hm.named hm.shape_eq
    rw [hm.name_eq] at hreads
    cases tail with
    | nil =>
      -- the file has no more members, so the schema has none
      have hstmts : rest.stmts = [] := by
        cases rest with
        | nil => rfl
        | cons =>
          obtain ⟨m', tail', hcons, -⟩ := hrest
          cases hcons
      rw [Members.stmts, hstmts, List.append_nil]
      exact reads_body_singleton hindent htext hreads
    | cons m' tail' =>
      obtain ⟨u, hu, -, hreads'⟩ := hrest.reads_body (List.cons_ne_nil _ _)
      exact reads_body_cons hindent htext hreads hu hreads'

/-- The text is written, and C++ reads the method in it. -/
theorem Members.Described.read {ms : Members} {d : Interface.MsgDef} (h : ms.Described defs d.members) :
    ∃ text, serializeMethod d indent = .ok text ∧
      readMethod text.chars = some ("serialize".toList, ⟨"msg".toList, "w".toList, .sequence ms.bodyStmts⟩) := by
  cases ms with
  | nil =>
    refine ⟨_, by rw [serializeMethod, show d.members = [] from h]; rfl, ?_⟩
    exact readMethod_serialize hindent (reads_void hindent)
  | cons name shape t rest =>
    have hne : d.members ≠ [] := by
      obtain ⟨m, tail, hcons, -⟩ := h
      exact hcons ▸ List.cons_ne_nil _ _
    obtain ⟨body, hbody, hchars, hreads⟩ := h.reads_body hindent hne
    refine ⟨_, by rw [serializeMethod, hbody]; rfl, ?_⟩
    rw [orVoid, if_neg (by rw [hchars]; exact Bool.false_ne_true)]
    exact readMethod_serialize hindent hreads

end Text

section Runs
variable {funs : Functions CdrWriter} {env : Env} {w : CdrWriter} (hw : env.lookup "w".toList = some .stream)
include hw

/-- The statements of some of the members write these members of the object. -/
theorem exec_stmts {fields : List (Name × Obj)} (hmsg : env.lookup "msg".toList = some (.obj (.struct fields))) :
    (ms : Members) → (∀ t ∈ ms.types, t.Runs funs) → (v : ms.Val) → ms.InMemory v →
    (∀ x ∈ ms.fields v, fields.lookup x.1 = some x.2) → (w : CdrWriter) →
    exec writerHost funs (.sequence ms.stmts) env w = some (ms.serialize v w)
  | .nil, _, _, _, _, _ => rfl
  | .cons name shape t rest, hruns, v, hv, hfields, w => by
    have hmember : eval env (memberExpr name.toList) = some (.obj (shape.obj t.obj v.1)) := by
      rw [memberExpr, eval, eval_var, hmsg]
      change ((fields.lookup name.toList).map Value.obj) = _
      rw [hfields _ List.mem_cons_self]
      rfl
    rw [Members.stmts, exec_sequence_append, exec_serializeStmts hw (hruns t List.mem_cons_self) hv.1 hmember,
      Option.bind_some]
    exact exec_stmts hmsg rest (fun u hu => hruns u (List.mem_cons_of_mem _ hu)) v.2 hv.2
      (fun x hx => hfields x (List.mem_cons_of_mem _ hx)) _

end Runs

theorem run_method {funs : Functions CdrWriter} {ms : Members} (hruns : ∀ t ∈ ms.types, t.Runs funs)
    (hnodup : ms.names.Nodup) {v : ms.Val} (hv : ms.InMemory v) (w : CdrWriter) :
    Method.run writerHost funs ⟨"msg".toList, "w".toList, .sequence ms.bodyStmts⟩ (.struct (ms.fields v)) w =
      some (ms.serialize v w) := by
  have hstmts : exec writerHost funs (.sequence ms.stmts)
      [("msg".toList, .obj (.struct (ms.fields v))), ("w".toList, .stream)] w = some (ms.serialize v w) :=
    exec_stmts rfl rfl ms hruns v hv (ms.lookup_fields hnodup v) w
  cases ms with
  | nil => rfl
  | cons name shape t rest => exact hstmts

theorem program_described {package name : String} {d : Interface.MsgDef} {ms : Members}
    (hd : defs package.toList name.toList = some d) (h : ms.Described defs d.members) :
    program defs [package.toList, "msg".toList, name.toList, "serialize".toList] =
      some ⟨"msg".toList, "w".toList, .sequence ms.bodyStmts⟩ := by
  have hblank : ∀ c ∈ "  ".toList, isBlank c = true := by decide
  obtain ⟨text, htext, hread⟩ := h.read hblank
  rw [program, if_pos rfl, hd, Option.bind_some, structMethod, htext]
  dsimp only
  rw [hread]
  exact if_pos rfl

/-- Calls nested as deep as the schema are enough. -/
theorem RosType.Described.runs : (depth : ℕ) → {t : RosType} → t.Described defs → t.depth ≤ depth →
    t.Runs (functions writerHost (program defs) depth)
  | _, .prim _, _, _ => trivial
  | _, .string, _, _ => trivial
  | 0, .nested _ _ ms, _, hdepth => absurd hdepth (Nat.not_succ_le_zero ms.depth)
  | depth + 1, .nested package name ms, h, hdepth => by
    -- the methods that this one calls are one level less deep
    obtain ⟨d, hd, hnodup, hms⟩ := h
    have hruns : ∀ u ∈ ms.types, u.Runs (functions writerHost (program defs) depth) := fun u hu =>
      RosType.Described.runs depth (hms.types u hu) ((ms.depth_of_mem u hu).trans (Nat.le_of_succ_le_succ hdepth))
    refine ⟨_, by rw [functions, program_described hd hms]; rfl, fun v w hv => run_method hruns hnodup hv w⟩

/-- The method that is written for a message, read as C++ and run on an object and a writer, has the effect that
`Members.serialize` has on the value of the object. -/
theorem emitted_serialize_meaning {indent : String} (hindent : ∀ c ∈ indent.toList, isBlank c = true)
    {d : Interface.MsgDef} {ms : Members} (h : ms.Described defs d.members) (hnodup : ms.names.Nodup) :
    ∃ text method, serializeMethod d indent = .ok text ∧ readMethod text.chars = some ("serialize".toList, method) ∧
      ∀ (v : ms.Val) (w : CdrWriter), ms.InMemory v →
        method.run writerHost (functions writerHost (program defs) ms.depth) (.struct (ms.fields v)) w =
          some (ms.serialize v w) := by
  obtain ⟨text, htext, hread⟩ := h.read hindent
  have hruns : ∀ t ∈ ms.types, t.Runs (functions writerHost (program defs) ms.depth) := fun t ht =>
    (h.types t ht).runs ms.depth (ms.depth_of_mem t ht)
  exact ⟨text, _, htext, hread, fun v w hv => run_method hruns hnodup hv w⟩

/-- The definition of `std_msgs/String`, and no other. -/
def stringDefinitions : Definitions := fun package name =>
  if package = "std_msgs".toList ∧ name = "String".toList then
    some ⟨package, name, [{ rosType := "string".toList, name := "data".toList }]⟩
  else none

/-- A message of a `std_msgs/String` and a sequence of numbers. -/
def labelledDef : Interface.MsgDef where
  package := "demo".toList
  name := "Labelled".toList
  members := [{ rosType := "std_msgs/String".toList, name := "label".toList },
    { rosType := "uint16".toList, name := "values".toList, isSeq := true }]

def labelledSchema : Members :=
  .cons "label" .scalar (.nested "std_msgs" "String" (.cons "data" .scalar .string .nil))
    (.cons "values" .seq (.prim .uint16) .nil)

def labelledValue : labelledSchema.Val := (([0x68, 0x69], ()), ([1#16, 2#16] : List (BitVec 16)), ())

theorem labelledDef_described : labelledSchema.Described stringDefinitions labelledDef.members := by
  refine ⟨_, _, rfl, ⟨rfl, ⟨⟨by decide, by decide⟩, by decide⟩, rfl, by rfl, ?_⟩, ⟨_, rfl, by decide, ?_⟩,
    _, _, rfl, ⟨rfl, ⟨⟨by decide, by decide⟩, by decide⟩, rfl, by rfl, trivial⟩, trivial, rfl⟩
  · exact ⟨⟨⟨by decide, by decide⟩, by decide⟩, ⟨by decide, by decide⟩, by decide⟩
  · exact ⟨_, _, rfl, ⟨rfl, ⟨⟨by decide, by decide⟩, by decide⟩, rfl, by rfl, trivial⟩, trivial, rfl⟩

theorem emitted_serialize_meaning_labelled : ∃ text method, serializeMethod labelledDef "  " = .ok text ∧
    readMethod text.chars = some ("serialize".toList, method) ∧
    method.run writerHost (functions writerHost (program stringDefinitions) labelledSchema.depth)
      (.struct (labelledSchema.fields labelledValue)) CdrWriter.new =
      some (labelledSchema.serialize labelledValue CdrWriter.new) := by
  have hblank : ∀ c ∈ "  ".toList, isBlank c = true := by decide
  obtain ⟨text, method, htext, hread, hrun⟩ := emitted_serialize_meaning hblank labelledDef_described (by decide)
  have hvalue : labelledSchema.InMemory labelledValue := by
    refine ⟨⟨trivial, trivial⟩, ⟨?_, fun _ _ => trivial⟩, trivial⟩
    change 2*2 < 2^64
    decide
  exact ⟨text, method, htext, hread, hrun labelledValue CdrWriter.new hvalue⟩

end Messages

end Rcllite
