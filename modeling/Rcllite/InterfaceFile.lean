import Rcllite.CdrPrim
import Rcllite.Lib.PyText
import Rcllite.Lib.Regex

/-! The parser of `.msg` and `.srv` files in `tools/msg_codegen.py`. A Python text is the list of its code
points, and a `ValueError` is the only exception the parser raises. -/
namespace Rcllite.Interface
open PyText Regex

/-- The key of the `PRIM` table. -/
def key : Prim → List Char
  | .bool => "bool".toList
  | .byte => "byte".toList
  | .char => "char".toList
  | .float32 => "float32".toList
  | .float64 => "float64".toList
  | .int8 => "int8".toList
  | .int16 => "int16".toList
  | .int32 => "int32".toList
  | .int64 => "int64".toList
  | .uint8 => "uint8".toList
  | .uint16 => "uint16".toList
  | .uint32 => "uint32".toList
  | .uint64 => "uint64".toList

def primKeys : List (List Char) :=
  [key .bool, key .byte, key .char, key .float32, key .float64, key .int8, key .int16, key .int32, key .int64,
   key .uint8, key .uint16, key .uint32, key .uint64]

structure Member where
  rosType : List Char
  name : List Char
  isSeq : Bool := false
  fixedLen : Option ℤ := none
  default : List Char := []
deriving DecidableEq, Repr

structure MsgDef where
  package : List Char
  name : List Char
  members : List Member
deriving DecidableEq, Repr

structure SrvDef where
  package : List Char
  name : List Char
  request : MsgDef
  response : MsgDef
deriving DecidableEq, Repr

inductive ValueError where
  /-- "nested type must be pkg/Name, got: token" -/
  | nestedType (token : List Char)
  /-- "package/name: cannot parse line: line" -/
  | cannotParse (package name line : List Char)
  /-- "package/name: wstring is not supported" -/
  | wstring (package name : List Char)
  /-- What `int` raises on a text that is no number, or a number beyond the interpreter's digit limit. -/
  | int (text : List Char)
  /-- "service name lacks '---' separator" -/
  | lacksSeparator (name : List Char)
deriving DecidableEq, Repr

def splitPkgType (token : List Char) : Except ValueError (List Char × List Char) :=
  match partition ['/'] token with
  | none => .error (.nestedType token)
  | some (pkg, name) => if pkg.isEmpty || name.isEmpty then .error (.nestedType token) else .ok (pkg, name)

section Classes

def isUpper (c : Char) : Bool := 'A' ≤ c && c ≤ 'Z'
def isLower (c : Char) : Bool := 'a' ≤ c && c ≤ 'z'
def isDigit (c : Char) : Bool := '0' ≤ c && c ≤ '9'

/-- `[A-Za-z_]` -/
def identHead (c : Char) : Bool := isUpper c || isLower c || c == '_'
/-- `[A-Za-z0-9_]` -/
def identTail (c : Char) : Bool := isUpper c || isLower c || isDigit c || c == '_'
/-- `[A-Za-z0-9_/]` -/
def typeTail (c : Char) : Bool := identTail c || c == '/'
/-- `[A-Z_]` -/
def constHead (c : Char) : Bool := isUpper c || c == '_'
/-- `[A-Z0-9_]` -/
def constTail (c : Char) : Bool := isUpper c || isDigit c || c == '_'

end Classes

section Expressions
open Re

/-- `[A-Za-z_][A-Za-z0-9_]*\s+[A-Z_][A-Z0-9_]*\s*=` -/
def constantRe : Re Char :=
  seq (cls identHead) <| seq (many identTail) <| seq (plus isSpace) <|
    seq (cls constHead) <| seq (many constTail) <| seq (many isSpace) (cls (· == '='))

/-- `[A-Za-z_][A-Za-z0-9_/]*(?:<=\d+)?` -/
def typeRe : Re Char :=
  seq (cls identHead) <| seq (many typeTail) <|
    opt (seq (cls (· == '<')) (seq (cls (· == '=')) (plus isDecimal)))

/-- `\[[^\]]*\]` -/
def bracketRe : Re Char := seq (cls (· == '[')) (seq (many (· != ']')) (cls (· == ']')))

/-- `[a-z][A-Za-z0-9_]*` -/
def nameRe : Re Char := seq (cls isLower) (many identTail)

/-- `\s+(.*)` -/
def defaultRe : Re Char := seq (plus isSpace) (group 4 (many (· != '\n')))

/-- `$`: at the end, or before a newline that ends the text. -/
def atEnd (rest : List Char) : Bool := rest.isEmpty || rest == ['\n']

/-- `(type)(bracket)?\s+(name)(?:default)?$` -/
def memberRe : Re Char :=
  seq (group 1 typeRe) <| seq (opt (group 2 bracketRe)) <| seq (plus isSpace) <|
    seq (group 3 nameRe) <| seq (opt defaultRe) (look atEnd)

end Expressions

/-- The shape the brackets give a member: `is_seq` and `fixed_len`. -/
def parseBracket : Option (List Char) → Except ValueError (Bool × Option ℤ)
  | none => .ok (false, none)
  | some bracket =>
    let inner := (bracket.drop 1).dropLast
    if inner.isEmpty then .ok (true, none)
    else if "<=".toList.isPrefixOf inner then .ok (true, none)
    else match int? inner with
      | some n => .ok (false, some n)
      | none => .error (.int inner)

/-- Nested types of the same package may omit its name. -/
def qualify (package rosType : List Char) : List Char :=
  if rosType ∉ primKeys ∧ rosType ≠ "string".toList ∧ '/' ∉ rosType then package ++ '/' :: rosType else rosType

/-- The member a matched line declares, from the match's groups. -/
def memberOf (package name : List Char) (groups : Groups Char) : Except ValueError Member := do
  let typeTok := (groups 1).getD []
  if typeTok = "wstring".toList then .error (.wstring package name)
  else
    let rosType := if "string<=".toList.isPrefixOf typeTok then "string".toList else typeTok
    let (isSeq, fixedLen) ← parseBracket (groups 2)
    .ok { rosType := qualify package rosType, name := (groups 3).getD [], isSeq := isSeq, fixedLen := fixedLen,
          default := strip ((groups 4).getD []) }

/-- One round of the loop of `parse_msg`: the member the line declares, if it declares one. -/
def parseLine (package name raw : List Char) : Except ValueError (Option Member) :=
  let line := strip (raw.takeWhile (· ≠ '#'))
  if line.isEmpty then .ok none
  else if (matchStart constantRe line).isSome then .ok none
  else match matchStart memberRe line with
    | none => .error (.cannotParse package name line)
    | some groups => (memberOf package name groups).map some

def parseLines (package name : List Char) : List (List Char) → Except ValueError (List Member)
  | [] => .ok []
  | raw :: rest => do
    let member ← parseLine package name raw
    let members ← parseLines package name rest
    .ok (member.toList ++ members)

def parseMsg (text package name : List Char) : Except ValueError MsgDef :=
  (parseLines package name (splitlines text)).map fun members => ⟨package, name, members⟩

def parseSrv (text package name : List Char) : Except ValueError SrvDef :=
  match partition "---".toList text with
  | none => .error (.lacksSeparator name)
  | some (reqS, respS) => do
    let request ← parseMsg reqS package (name ++ "_Request".toList)
    let response ← parseMsg respS package (name ++ "_Reply".toList)
    .ok ⟨package, name, request, response⟩

end Rcllite.Interface
