import Syntree.Tree.Decl
import Syntree.Position
import Syntree.Text.Outline
import Syntree.Text.Quoted
import Syntree.Decimal.Shortest

/-!
A whole tree as text, with every field of every node.
-/

namespace Syntree

open Text (Outline)
open Text.Outline (leaf record wrapped)

def Text.Outline.quoted (text : String) : Outline :=
  leaf (Text.quoted text)

def Text.Outline.flag (value : Bool) : Outline :=
  leaf (if value then "true" else "false")

open Text.Outline (quoted flag)

def Position.outline (p : Position) : Outline :=
  record "Position" [
    ("file", quoted p.file),
    ("offset", leaf (toString p.offset.toNat)),
    ("line", leaf (toString p.line.toNat)),
    ("column", leaf (toString p.column.toNat))]

def Op.outline (op : Op) : Outline :=
  leaf op.name

/-- A node whose kind is told apart by one further field. -/
def Position.outlineWith (name : String) (pos : Position) (kind : Outline) : Outline :=
  record name [("pos", pos.outline), ("kind", kind)]

def Literal.outline (l : Literal Position) : Outline :=
  l.pos.outlineWith "Literal" <|
    match l.value with
    | .number value => wrapped "Number" (leaf (value.text .outline))
    | .string value => wrapped "Str" (quoted value)

mutual

def Expr.outline : Expr Position → Outline
  | .binary pos left op right =>
    pos.outlineWith "Expr" <| record "Binary" [
      ("left", left.outline), ("op", op.outline), ("right", right.outline)]
  | .unary pos operand => pos.outlineWith "Expr" (wrapped "Unary" operand.outline)

def Unary.outline : Unary Position → Outline
  | .prefixed pos op operand =>
    pos.outlineWith "Unary" (record "Prefix" [("op", op.outline), ("operand", operand.outline)])
  | .terminal pos operand => pos.outlineWith "Unary" (wrapped "Terminal" operand.outline)

def Terminal.outline : Terminal Position → Outline
  | .array pos array => pos.outlineWith "Terminal" (wrapped "Array" array.outline)
  | .dictOrSet pos entries => pos.outlineWith "Terminal" (wrapped "DictOrSet" entries.outline)
  | .paren pos inner => pos.outlineWith "Terminal" (wrapped "Paren" inner.outline)
  | .literal pos literal => pos.outlineWith "Terminal" (wrapped "Literal" literal.outline)
  | .reference pos reference => pos.outlineWith "Terminal" (wrapped "Reference" reference.outline)

def ArrayLiteral.outline : ArrayLiteral Position → Outline
  | ⟨pos, elements⟩ =>
    record "ArrayLiteral" [
      ("pos", pos.outline), ("elements", .list (Expr.outlineList elements))]

def DictOrSetLiteral.outline : DictOrSetLiteral Position → Outline
  | ⟨pos, entries⟩ =>
    record "DictOrSetLiteral" [
      ("pos", pos.outline), ("entries", .list (Entry.outlineList entries))]

def Entry.outline : Entry Position → Outline
  | ⟨pos, key, value⟩ =>
    record "DictOrSetEntryLiteral" [
      ("pos", pos.outline), ("key", key.outline), ("value", .option (Expr.outlineOption value))]

def Reference.outline : Reference Position → Outline
  | ⟨pos, name, next⟩ =>
    record "Reference" [
      ("pos", pos.outline), ("name", quoted name), ("next", .list (Selector.outlineList next))]

def Selector.outline : Selector Position → Outline
  | .member pos name => pos.outlineWith "ReferenceNext" (wrapped "Member" (quoted name))
  | .index pos index => pos.outlineWith "ReferenceNext" (wrapped "Index" index.outline)
  | .call pos call => pos.outlineWith "ReferenceNext" (wrapped "Call" call.outline)

def Call.outline : Call Position → Outline
  | ⟨pos, arguments⟩ =>
    record "Call" [("pos", pos.outline), ("arguments", .list (Expr.outlineList arguments))]

def Expr.outlineList : List (Expr Position) → List Outline
  | [] => []
  | e :: es => e.outline :: Expr.outlineList es

def Expr.outlineOption : Option (Expr Position) → Option Outline
  | none => none
  | some e => some e.outline

def Entry.outlineList : List (Entry Position) → List Outline
  | [] => []
  | e :: es => e.outline :: Entry.outlineList es

def Selector.outlineList : List (Selector Position) → List Outline
  | [] => []
  | s :: ss => s.outline :: Selector.outlineList ss

end

def TypeParam.outline (t : TypeParam Position) : Outline :=
  record "TypeParamDecl" [
    ("pos", t.pos.outline), ("name", quoted t.name),
    ("constraints", .list (t.constraints.map Reference.outline))]

def TypeDecl.outline (t : TypeDecl Position) : Outline :=
  record "TypeDecl" [
    ("pos", t.pos.outline), ("name", quoted t.name),
    ("type_parameters", .list (t.parameters.map TypeParam.outline))]

def ImportDecl.outline (d : ImportDecl Position) : Outline :=
  record "ImportDecl" [
    ("pos", d.pos.outline), ("alias", .option (d.given.map quoted)), ("path", quoted d.path)]

def CaseDecl.outline (d : CaseDecl Position) : Outline :=
  record "CaseDecl" [
    ("pos", d.pos.outline), ("name", quoted d.name),
    ("payload", .option (d.payload.map TypeDecl.outline))]

def Parameters.outline (p : Parameters Position) : Outline :=
  record "Parameters" [
    ("pos", p.pos.outline), ("names", .list (p.names.map quoted)), ("type_ref", p.type.outline)]

def VarBinding.outline (v : VarBinding Position) : Outline :=
  record "VarDeclAsgn" [
    ("pos", v.pos.outline), ("name", quoted v.name),
    ("type_ref", .option (v.type.map Reference.outline)),
    ("default", .option (v.value.map Expr.outline))]

def VarDecl.outline (d : VarDecl Position) : Outline :=
  record "VarDecl" [("pos", d.pos.outline), ("vars", .list (d.vars.map VarBinding.outline))]

def ReturnStmt.outline (s : ReturnStmt Position) : Outline :=
  record "ReturnStmt" [("pos", s.pos.outline), ("value", .option (s.value.map Expr.outline))]

def EnumCase.outline (c : EnumCase Position) : Outline :=
  record "EnumCase" [
    ("pos", c.pos.outline), ("name", quoted c.name), ("binding", .option (c.binding.map quoted))]

def CaseSelect.outline : CaseSelect Position → Outline
  | .enumCase pos pattern => pos.outlineWith "CaseSelect" (wrapped "EnumCase" pattern.outline)
  | .expr pos value => pos.outlineWith "CaseSelect" (wrapped "Expr" value.outline)

def CaseSelect.outlineSelector : Option (CaseSelect Position) → Outline
  | none => leaf "Default"
  | some select => wrapped "Case" select.outline

def Modifier.outlineList (ms : List Modifier) : Outline :=
  wrapped "Modifiers" (.list (ms.map fun m => leaf m.name))

/-- A declaration together with its modifiers. -/
def Position.outlineDecl (name : String) (pos : Position) (modifiers : List Modifier)
    (decl : Outline) : Outline :=
  record name [
    ("pos", pos.outline), ("modifiers", Modifier.outlineList modifiers), ("kind", decl)]

mutual

def Stmt.outline : Stmt Position → Outline
  | .ret pos stmt => pos.outlineWith "Stmt" (wrapped "Return" stmt.outline)
  | .cond pos stmt => pos.outlineWith "Stmt" (wrapped "If" stmt.outline)
  | .loop pos stmt => pos.outlineWith "Stmt" (wrapped "For" stmt.outline)
  | .switch pos stmt => pos.outlineWith "Stmt" (wrapped "Switch" stmt.outline)
  | .block pos block => pos.outlineWith "Stmt" (wrapped "Block" block.outline)
  | .varDecl pos decl => pos.outlineWith "Stmt" (wrapped "VarDecl" decl.outline)
  | .funcDecl pos decl => pos.outlineWith "Stmt" (wrapped "FuncDecl" decl.outline)
  | .classDecl pos decl => pos.outlineWith "Stmt" (wrapped "ClassDecl" decl.outline)
  | .enumDecl pos decl => pos.outlineWith "Stmt" (wrapped "EnumDecl" decl.outline)
  | .expression pos expr => pos.outlineWith "Stmt" (wrapped "Expression" expr.outline)

def Block.outline : Block Position → Outline
  | ⟨pos, statements⟩ =>
    record "Block" [("pos", pos.outline), ("statements", .list (Stmt.outlineList statements))]

def IfStmt.outline : IfStmt Position → Outline
  | ⟨pos, condition, main, otherwise⟩ =>
    record "IfStmt" [
      ("pos", pos.outline), ("condition", condition.outline), ("main", main.outline),
      ("else_block", .option (Block.outlineOption otherwise))]

def ForStmt.outline : ForStmt Position → Outline
  | ⟨pos, target, source, body⟩ =>
    record "ForStmt" [
      ("pos", pos.outline), ("target", target.outline), ("source", source.outline),
      ("body", body.outline)]

def SwitchStmt.outline : SwitchStmt Position → Outline
  | ⟨pos, target, cases⟩ =>
    record "SwitchStmt" [
      ("pos", pos.outline), ("target", target.outline),
      ("cases", .list (CaseStmt.outlineList cases))]

def CaseStmt.outline : CaseStmt Position → Outline
  | ⟨pos, selector, body⟩ =>
    record "CaseStmt" [
      ("pos", pos.outline), ("selector", CaseSelect.outlineSelector selector),
      ("body", .list (Stmt.outlineList body))]

def FuncDecl.outline : FuncDecl Position → Outline
  | ⟨pos, name, parameters, throws, result, body⟩ =>
    record "FuncDecl" [
      ("pos", pos.outline), ("name", quoted name),
      ("parameters", .list (parameters.map Parameters.outline)), ("throws", flag throws),
      ("return_type", .option (result.map Reference.outline)), ("body", body.outline)]

def InitialiserDecl.outline : InitialiserDecl Position → Outline
  | ⟨pos, parameters, throws, body⟩ =>
    record "InitialiserDecl" [
      ("pos", pos.outline), ("parameters", .list (parameters.map Parameters.outline)),
      ("throws", flag throws), ("body", body.outline)]

def ClassDecl.outline : ClassDecl Position → Outline
  | ⟨pos, type, members⟩ =>
    record "ClassDecl" [
      ("pos", pos.outline), ("type_decl", type.outline),
      ("members", .list (ClassMember.outlineList members))]

def ClassMember.outline : ClassMember Position → Outline
  | ⟨pos, modifiers, decl⟩ => pos.outlineDecl "ClassMember" modifiers decl.outline

def EnumDecl.outline : EnumDecl Position → Outline
  | ⟨pos, type, members⟩ =>
    record "EnumDecl" [
      ("pos", pos.outline), ("type_decl", type.outline),
      ("members", .list (EnumMember.outlineList members))]

def EnumMember.outline : EnumMember Position → Outline
  | ⟨pos, modifiers, decl⟩ => pos.outlineDecl "EnumMember" modifiers decl.outline

def Decl.outline : Decl Position → Outline
  | .classDecl decl => wrapped "Class" decl.outline
  | .importDecl decl => wrapped "Import" decl.outline
  | .enumDecl decl => wrapped "Enum" decl.outline
  | .varDecl decl => wrapped "Var" decl.outline
  | .funcDecl decl => wrapped "Func" decl.outline
  | .caseDecl decl => wrapped "Case" decl.outline
  | .initialiser decl => wrapped "Initialiser" decl.outline

def Stmt.outlineList : List (Stmt Position) → List Outline
  | [] => []
  | s :: ss => s.outline :: Stmt.outlineList ss

def Block.outlineOption : Option (Block Position) → Option Outline
  | none => none
  | some b => some b.outline

def CaseStmt.outlineList : List (CaseStmt Position) → List Outline
  | [] => []
  | c :: cs => c.outline :: CaseStmt.outlineList cs

def ClassMember.outlineList : List (ClassMember Position) → List Outline
  | [] => []
  | m :: ms => m.outline :: ClassMember.outlineList ms

def EnumMember.outlineList : List (EnumMember Position) → List Outline
  | [] => []
  | m :: ms => m.outline :: EnumMember.outlineList ms

end

def RootDecl.outline (d : RootDecl Position) : Outline :=
  d.pos.outlineDecl "RootDecl" d.modifiers d.decl.outline

def Ast.outline (a : Ast Position) : Outline :=
  record "Ast" [
    ("pos", a.pos.outline), ("declarations", .list (a.declarations.map RootDecl.outline))]

/-- The text of a tree. -/
def Ast.text (a : Ast Position) : String :=
  a.outline.render

end Syntree
