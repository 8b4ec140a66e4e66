import Rcllite.InterfaceFile
import Rcllite.Lib.CppLexer

/-! The text of the `serialize` methods that `tools/msg_codegen.py` writes into a header, f-string by f-string. -/
namespace Rcllite.Codegen
open Interface Cpp

/-- The rows of the table `PRIM`. -/
def primitives : List Prim :=
  [.bool, .byte, .char, .float32, .float64, .int8, .int16, .int32, .int64, .uint8, .uint16, .uint32, .uint64]

/-- `t in PRIM`, with the row. -/
def prim? (t : List Char) : Option Prim := primitives.find? fun p => key p = t

/-- `CPP_PRIM[t]` -/
def cppPrim : Prim → List Char
  | .bool => "bool".toList
  | .byte | .char | .uint8 => "uint8_t".toList
  | .float32 => "float".toList
  | .float64 => "double".toList
  | .int8 => "int8_t".toList
  | .int16 => "int16_t".toList
  | .int32 => "int32_t".toList
  | .int64 => "int64_t".toList
  | .uint16 => "uint16_t".toList
  | .uint32 => "uint32_t".toList
  | .uint64 => "uint64_t".toList

/-- `"\n    ".join(lines)` -/
def joinLines : List Text → Text
  | [] => []
  | [t] => t
  | t :: ts => t ++ lit "\n    " ++ joinLines ts

def emitSerialize (m : Interface.Member) : Except ValueError Text :=
  let t := m.rosType
  let f := lit "msg." ++ hole m.name
  if m.isSeq then
    let lines := [lit "w.align_to(4);", lit "w.write_uint32(static_cast<uint32_t>(" ++ f ++ lit ".size()));"]
    match prim? t with
    | some p =>
      if p = .bool then
        .ok (joinLines (lines ++ [lit "for (const auto & e : " ++ f ++ lit ") \x7b w.write_" ++ hole (key p) ++ lit "(e); \x7d"]))
      else
        .ok (joinLines (lines ++ [lit "if (!" ++ f ++ lit ".empty()) \x7b" ++ lit " w.write_aligned(" ++ f ++ lit ".data(), " ++
          f ++ lit ".size() * sizeof(" ++ hole (cppPrim p) ++ lit "), sizeof(" ++ hole (cppPrim p) ++ lit ")); \x7d"]))
    | none =>
      if t = "string".toList then .ok (joinLines (lines ++ [lit "for (const auto & e : " ++ f ++ lit ") \x7b w.write_string(e); \x7d"]))
      else do
        let (pkg, nm) ← splitPkgType t
        .ok (joinLines (lines ++ [lit "for (const auto & e : " ++ f ++ lit ") \x7b " ++ hole pkg ++ lit "::msg::" ++ hole nm ++
          lit "::serialize(e, w); \x7d"]))
  else if m.fixedLen.isSome then
    match prim? t with
    | some p => .ok (lit "w.align_to(" ++ numeral p.align ++ lit ");\n    " ++ lit "w.write_bytes(" ++ f ++ lit ".data(), " ++
        f ++ lit ".size() * sizeof(" ++ hole (cppPrim p) ++ lit "));")
    | none =>
      if t = "string".toList then .ok (lit "for (const auto & e : " ++ f ++ lit ") \x7b w.write_string(e); \x7d")
      else do
        let (pkg, nm) ← splitPkgType t
        .ok (lit "for (const auto & e : " ++ f ++ lit ") \x7b " ++ hole pkg ++ lit "::msg::" ++ hole nm ++ lit "::serialize(e, w); \x7d")
  else
    match prim? t with
    | some p => .ok (lit "w.write_" ++ hole (key p) ++ lit "(" ++ f ++ lit ");")
    | none =>
      if t = "string".toList then .ok (lit "w.write_string(" ++ f ++ lit ");")
      else do
        let (pkg, nm) ← splitPkgType t
        .ok (hole pkg ++ lit "::msg::" ++ hole nm ++ lit "::serialize(" ++ f ++ lit ", w);")

/-- `"\n".join(f"{indent}  {emit(m)}" for m in members)` -/
def bodyText (emit : Interface.Member → Except ValueError Text) (indent : String) :
    List Interface.Member → Except ValueError Text
  | [] => .ok []
  | [m] => do
    let t ← emit m
    .ok (lit indent ++ lit "  " ++ t)
  | m :: ms => do
    let t ← emit m
    let rest ← bodyText emit indent ms
    .ok (lit indent ++ lit "  " ++ t ++ lit "\n" ++ rest)

/-- `if not body: body = f"{indent}  (void)msg;"` -/
def orVoid (indent : String) (body : Text) : Text :=
  if body.chars.isEmpty then lit indent ++ lit "  (void)msg;" else body

def serializeMethod (msg : MsgDef) (indent : String) : Except ValueError Text := do
  let body ← bodyText emitSerialize indent msg.members
  .ok (lit indent ++ lit "static void serialize(const M & msg, rcl::CdrWriter & w)\n" ++ lit indent ++ lit "\x7b\n" ++
    orVoid indent body ++ lit "\n" ++ lit indent ++ lit "\x7d")

end Rcllite.Codegen
