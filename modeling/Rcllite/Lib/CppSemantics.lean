import Rcllite.Lib.CppSyntax
import Rcllite.Lib.LittleEndian

/-! What the statements of the fragment do. A function reads one object and works on a stream, whose class the
program calls and does not define. `none` stands for a program without meaning in the fragment. -/
namespace Cpp

/-- The arithmetic types. -/
inductive Scalar where
  | bool
  | int8
  | uint8
  | int16
  | uint16
  | int32
  | uint32
  | int64
  | uint64
  | float
  | double
deriving DecidableEq, Repr

def Scalar.typeName : Scalar → Name
  | .bool => "bool".toList
  | .int8 => "int8_t".toList
  | .uint8 => "uint8_t".toList
  | .int16 => "int16_t".toList
  | .uint16 => "uint16_t".toList
  | .int32 => "int32_t".toList
  | .uint32 => "uint32_t".toList
  | .int64 => "int64_t".toList
  | .uint64 => "uint64_t".toList
  | .float => "float".toList
  | .double => "double".toList

def Scalar.size : Scalar → ℕ
  | .bool | .int8 | .uint8 => 1
  | .int16 | .uint16 => 2
  | .int32 | .uint32 | .float => 4
  | .int64 | .uint64 | .double => 8

def Scalar.unsigned : Scalar → Bool
  | .uint8 | .uint16 | .uint32 | .uint64 => true
  | _ => false

def scalars : List Scalar :=
  [.bool, .int8, .uint8, .int16, .uint16, .int32, .uint32, .int64, .uint64, .float, .double]

def scalar? : List Name → Option Scalar
  | [t] => scalars.find? fun k => k.typeName = t
  | _ => none

/-- An object, a scalar by its bytes. -/
inductive Obj where
  | scalar (k : Scalar) (rep : List UInt8)
  | string (s : List UInt8)
  /-- A `std::vector` or a `std::array`. -/
  | container (elems : List Obj)
  | struct (fields : List (Name × Obj))

def Obj.field? (f : Name) : Obj → Option Obj
  | .struct fields => fields.lookup f
  | _ => none

def Obj.elems? : Obj → Option (List Obj)
  | .container elems => some elems
  | _ => none

def Obj.rep? : Obj → Option (List UInt8)
  | .scalar _ rep => some rep
  | _ => none

/-- The value of an expression. A pointer is known by the bytes behind it. -/
inductive Value where
  | flag (b : Bool)
  | number (n : ℕ)
  | obj (o : Obj)
  | pointer (bs : List UInt8)
  | stream

def Value.obj? : Value → Option Obj
  | .obj o => some o
  | _ => none

abbrev Env := List (Name × Value)

section Evaluation

/-- A method of a container that changes nothing. -/
def inspect (m : Name) (elems : List Obj) : Option Value :=
  if m = "size".toList then some (.number elems.length)
  else if m = "empty".toList then some (.flag elems.isEmpty)
  else if m = "data".toList then (elems.mapM Obj.rep?).map fun reps => .pointer reps.flatten
  else none

/-- A conversion of a `size_t`. -/
def convert : Scalar → Value → Option Value
  | k, .number n => if k.unsigned then some (.obj (.scalar k (LittleEndian.toBytes k.size n))) else none
  | _, _ => none

def negate : Value → Option Value
  | .flag b => some (.flag !b)
  | _ => none

/-- `size_t` arithmetic. -/
def product : Value → Value → Option Value
  | .number a, .number b => some (.number (a*b % 2^64))
  | _, _ => none

/-- Expressions without an effect. -/
def eval (env : Env) : Expr → Option Value
  | .name path => match path with
    | [x] => env.lookup x
    | _ => none
  | .number n => some (.number n)
  | .member e f => (eval env e).bind fun v => (v.obj?.bind (Obj.field? f)).map .obj
  | .call (.member e m) => (eval env e).bind fun v => (v.obj?.bind Obj.elems?).bind (inspect m)
  | .cast ty e => (eval env e).bind fun v => (scalar? ty).bind (convert · v)
  | .sizeof ty => (scalar? ty).map fun k => .number k.size
  | .not e => (eval env e).bind negate
  | .mul a b => (eval env a).bind fun v => (eval env b).bind (product v)
  | _ => none

variable {σ : Type}

/-- The methods of the stream. -/
abbrev Host (σ : Type) := Name → List Value → σ → Option σ

/-- What the functions of a program do with an object and a stream. -/
abbrev Functions (σ : Type) := List Name → Option (Obj → σ → Option σ)

def callStream (host : Host σ) (recv : Option Value) (m : Name) (args : Option (List Value)) (s : σ) : Option σ :=
  match recv, args with
  | some .stream, some args => host m args s
  | _, _ => none

def callFunction (funs : Functions σ) (path : List Name) (object stream : Option Value) (s : σ) : Option σ :=
  match object, stream with
  | some (.obj o), some .stream => (funs path).bind fun f => f o s
  | _, _ => none

/-- An expression that stands for its effect. -/
def perform (host : Host σ) (funs : Functions σ) (env : Env) : Expr → σ → Option σ
  | .discard e, s => (eval env e).map fun _ => s
  | .call1 (.member e m) a, s => callStream host (eval env e) m ([a].mapM (eval env)) s
  | .call2 (.member e m) a b, s => callStream host (eval env e) m ([a, b].mapM (eval env)) s
  | .call3 (.member e m) a b c, s => callStream host (eval env e) m ([a, b, c].mapM (eval env)) s
  | .call2 (.name path) a b, s => callFunction funs path (eval env a) (eval env b) s
  | _, _ => none

def exec (host : Host σ) (funs : Functions σ) : Stmt → Env → σ → Option σ
  | .skip, _, s => some s
  | .seq a b, env, s => (exec host funs a env s).bind (exec host funs b env)
  | .block b, env, s => exec host funs b env s
  | .expr e, env, s => perform host funs env e s
  | .ifThen c b, env, s => match eval env c with
    | some (.flag true) => exec host funs b env s
    | some (.flag false) => some s
    | _ => none
  | .each x range b, env, s => match (eval env range).bind fun v => v.obj?.bind Obj.elems? with
    | some elems => elems.foldlM (fun s o => exec host funs b ((x, .obj o) :: env) s) s
    | none => none

end Evaluation

section Programs
variable {σ : Type}

def Method.run (host : Host σ) (funs : Functions σ) (m : Method) (o : Obj) (s : σ) : Option σ :=
  exec host funs m.body [(m.object, .obj o), (m.stream, .stream)] s

/-- The functions of a program, in calls nested less than `depth` deep. -/
def functions (host : Host σ) (prog : List Name → Option Method) : ℕ → Functions σ
  | 0, _ => none
  | depth + 1, path => (prog path).map (Method.run host (functions host prog depth))

end Programs

section Rules
variable {σ : Type} (host : Host σ) (funs : Functions σ) (env : Env) (s : σ)

theorem exec_expr (e : Expr) : exec host funs (.expr e) env s = perform host funs env e s := rfl

theorem exec_sequence_cons (a : Stmt) (ss : List Stmt) :
    exec host funs (.sequence (a :: ss)) env s = (exec host funs a env s).bind (exec host funs (.sequence ss) env) :=
  rfl

theorem exec_sequence_append (ss tt : List Stmt) : exec host funs (.sequence (ss ++ tt)) env s =
    (exec host funs (.sequence ss) env s).bind (exec host funs (.sequence tt) env) := by
  induction ss generalizing s with
  | nil => rfl
  | cons a ss ih =>
    rw [List.cons_append, exec_sequence_cons, exec_sequence_cons, Option.bind_assoc]
    exact congrArg _ (funext ih)

variable {host funs env s}

theorem exec_ifThen {c : Expr} {b : Stmt} {t : Bool} (h : eval env c = some (.flag t)) :
    exec host funs (.ifThen c b) env s = if t then exec host funs b env s else some s := by
  cases t <;> simp only [exec, h] <;> rfl

/-- A loop over the images of a list, in which each round does what `step` says. -/
theorem exec_each {α : Type} {x : Name} {range : Expr} {b : Stmt} {obj : α → Obj} {xs : List α} {step : σ → α → σ}
    (hrange : eval env range = some (.obj (.container (xs.map obj))))
    (hstep : ∀ a ∈ xs, ∀ s, exec host funs b ((x, .obj (obj a)) :: env) s = some (step s a)) :
    exec host funs (.each x range b) env s = some (xs.foldl step s) := by
  have hfold (as : List α) (has : ∀ a ∈ as, a ∈ xs) : ∀ s,
      (as.map obj).foldlM (fun s o => exec host funs b ((x, .obj o) :: env) s) s = some (as.foldl step s) := by
    induction as with
    | nil => exact fun s => rfl
    | cons a as ih =>
      intro s
      rw [List.map_cons, List.foldlM_cons, hstep a (has a List.mem_cons_self)]
      exact ih (fun c hc => has c (List.mem_cons_of_mem a hc)) (step s a)
  rw [exec, hrange]
  exact hfold xs (fun _ ha => ha) s

end Rules

end Cpp
