import Syntree.Tree.Map

/-!
Any node of a tree, with its kind, its position and its children in order of the source.
-/

namespace Syntree

/-- The kinds of nodes, from the root down. -/
inductive NodeKind where
  | ast | rootDecl | importDecl | enumDecl | enumMember | caseDecl | classDecl | classMember
  | initialiserDecl | typeDecl | typeParam | parameters | varDecl | varBinding | funcDecl | stmt
  | block | returnStmt | ifStmt | forStmt | switchStmt | caseStmt | caseSelect | enumCase | expr
  | unary | terminal | literal | reference | selector | call | arrayLiteral | dictOrSetLiteral
  | entry
deriving DecidableEq, Repr

namespace NodeKind

def all : List NodeKind :=
  [ast, rootDecl, importDecl, enumDecl, enumMember, caseDecl, classDecl, classMember,
    initialiserDecl, typeDecl, typeParam, parameters, varDecl, varBinding, funcDecl, stmt, block,
    returnStmt, ifStmt, forStmt, switchStmt, caseStmt, caseSelect, enumCase, expr, unary, terminal,
    literal, reference, selector, call, arrayLiteral, dictOrSetLiteral, entry]

def name : NodeKind → String
  | ast => "Ast"
  | rootDecl => "RootDecl"
  | importDecl => "ImportDecl"
  | enumDecl => "EnumDecl"
  | enumMember => "EnumMember"
  | caseDecl => "CaseDecl"
  | classDecl => "ClassDecl"
  | classMember => "ClassMember"
  | initialiserDecl => "InitialiserDecl"
  | typeDecl => "TypeDecl"
  | typeParam => "TypeParamDecl"
  | parameters => "Parameters"
  | varDecl => "VarDecl"
  | varBinding => "VarDeclAsgn"
  | funcDecl => "FuncDecl"
  | stmt => "Stmt"
  | block => "Block"
  | returnStmt => "ReturnStmt"
  | ifStmt => "IfStmt"
  | forStmt => "ForStmt"
  | switchStmt => "SwitchStmt"
  | caseStmt => "CaseStmt"
  | caseSelect => "CaseSelect"
  | enumCase => "EnumCase"
  | expr => "Expr"
  | unary => "Unary"
  | terminal => "Terminal"
  | literal => "Literal"
  | reference => "Reference"
  | selector => "ReferenceNext"
  | call => "Call"
  | arrayLiteral => "ArrayLiteral"
  | dictOrSetLiteral => "DictOrSetLiteral"
  | entry => "DictOrSetEntryLiteral"

def ofName? (name : String) : Option NodeKind :=
  all.find? (·.name == name)

end NodeKind

inductive Node (π : Type) where
  | ast (node : Ast π)
  | rootDecl (node : RootDecl π)
  | importDecl (node : ImportDecl π)
  | enumDecl (node : EnumDecl π)
  | enumMember (node : EnumMember π)
  | caseDecl (node : CaseDecl π)
  | classDecl (node : ClassDecl π)
  | classMember (node : ClassMember π)
  | initialiserDecl (node : InitialiserDecl π)
  | typeDecl (node : TypeDecl π)
  | typeParam (node : TypeParam π)
  | parameters (node : Parameters π)
  | varDecl (node : VarDecl π)
  | varBinding (node : VarBinding π)
  | funcDecl (node : FuncDecl π)
  | stmt (node : Stmt π)
  | block (node : Block π)
  | returnStmt (node : ReturnStmt π)
  | ifStmt (node : IfStmt π)
  | forStmt (node : ForStmt π)
  | switchStmt (node : SwitchStmt π)
  | caseStmt (node : CaseStmt π)
  | caseSelect (node : CaseSelect π)
  | enumCase (node : EnumCase π)
  | expr (node : Expr π)
  | unary (node : Unary π)
  | terminal (node : Terminal π)
  | literal (node : Literal π)
  | reference (node : Reference π)
  | selector (node : Selector π)
  | call (node : Call π)
  | arrayLiteral (node : ArrayLiteral π)
  | dictOrSetLiteral (node : DictOrSetLiteral π)
  | entry (node : Entry π)

variable {π ρ : Type}

/-- A declaration as a node of its own kind. -/
def Decl.node : Decl π → Node π
  | .classDecl d => .classDecl d
  | .importDecl d => .importDecl d
  | .enumDecl d => .enumDecl d
  | .varDecl d => .varDecl d
  | .funcDecl d => .funcDecl d
  | .caseDecl d => .caseDecl d
  | .initialiser d => .initialiserDecl d

namespace Node

def kind : Node π → NodeKind
  | ast _ => .ast
  | rootDecl _ => .rootDecl
  | importDecl _ => .importDecl
  | enumDecl _ => .enumDecl
  | enumMember _ => .enumMember
  | caseDecl _ => .caseDecl
  | classDecl _ => .classDecl
  | classMember _ => .classMember
  | initialiserDecl _ => .initialiserDecl
  | typeDecl _ => .typeDecl
  | typeParam _ => .typeParam
  | parameters _ => .parameters
  | varDecl _ => .varDecl
  | varBinding _ => .varBinding
  | funcDecl _ => .funcDecl
  | stmt _ => .stmt
  | block _ => .block
  | returnStmt _ => .returnStmt
  | ifStmt _ => .ifStmt
  | forStmt _ => .forStmt
  | switchStmt _ => .switchStmt
  | caseStmt _ => .caseStmt
  | caseSelect _ => .caseSelect
  | enumCase _ => .enumCase
  | expr _ => .expr
  | unary _ => .unary
  | terminal _ => .terminal
  | literal _ => .literal
  | reference _ => .reference
  | selector _ => .selector
  | call _ => .call
  | arrayLiteral _ => .arrayLiteral
  | dictOrSetLiteral _ => .dictOrSetLiteral
  | entry _ => .entry

def pos : Node π → π
  | ast n => n.pos
  | rootDecl n => n.pos
  | importDecl n => n.pos
  | enumDecl n => n.pos
  | enumMember n => n.pos
  | caseDecl n => n.pos
  | classDecl n => n.pos
  | classMember n => n.pos
  | initialiserDecl n => n.pos
  | typeDecl n => n.pos
  | typeParam n => n.pos
  | parameters n => n.pos
  | varDecl n => n.pos
  | varBinding n => n.pos
  | funcDecl n => n.pos
  | stmt n => n.pos
  | block n => n.pos
  | returnStmt n => n.pos
  | ifStmt n => n.pos
  | forStmt n => n.pos
  | switchStmt n => n.pos
  | caseStmt n => n.pos
  | caseSelect n => n.pos
  | enumCase n => n.pos
  | expr n => n.pos
  | unary n => n.pos
  | terminal n => n.pos
  | literal n => n.pos
  | reference n => n.pos
  | selector n => n.pos
  | call n => n.pos
  | arrayLiteral n => n.pos
  | dictOrSetLiteral n => n.pos
  | entry n => n.pos

def map (f : π → ρ) : Node π → Node ρ
  | ast n => .ast (n.map f)
  | rootDecl n => .rootDecl (n.map f)
  | importDecl n => .importDecl (n.map f)
  | enumDecl n => .enumDecl (n.map f)
  | enumMember n => .enumMember (n.map f)
  | caseDecl n => .caseDecl (n.map f)
  | classDecl n => .classDecl (n.map f)
  | classMember n => .classMember (n.map f)
  | initialiserDecl n => .initialiserDecl (n.map f)
  | typeDecl n => .typeDecl (n.map f)
  | typeParam n => .typeParam (n.map f)
  | parameters n => .parameters (n.map f)
  | varDecl n => .varDecl (n.map f)
  | varBinding n => .varBinding (n.map f)
  | funcDecl n => .funcDecl (n.map f)
  | stmt n => .stmt (n.map f)
  | block n => .block (n.map f)
  | returnStmt n => .returnStmt (n.map f)
  | ifStmt n => .ifStmt (n.map f)
  | forStmt n => .forStmt (n.map f)
  | switchStmt n => .switchStmt (n.map f)
  | caseStmt n => .caseStmt (n.map f)
  | caseSelect n => .caseSelect (n.map f)
  | enumCase n => .enumCase (n.map f)
  | expr n => .expr (n.map f)
  | unary n => .unary (n.map f)
  | terminal n => .terminal (n.map f)
  | literal n => .literal (n.map f)
  | reference n => .reference (n.map f)
  | selector n => .selector (n.map f)
  | call n => .call (n.map f)
  | arrayLiteral n => .arrayLiteral (n.map f)
  | dictOrSetLiteral n => .dictOrSetLiteral (n.map f)
  | entry n => .entry (n.map f)

def stmtChild : Stmt π → Node π
  | .ret _ s => .returnStmt s
  | .cond _ s => .ifStmt s
  | .loop _ s => .forStmt s
  | .switch _ s => .switchStmt s
  | .block _ b => .block b
  | .varDecl _ d => .varDecl d
  | .funcDecl _ d => .funcDecl d
  | .classDecl _ d => .classDecl d
  | .enumDecl _ d => .enumDecl d
  | .expression _ e => .expr e

def terminalChild : Terminal π → Node π
  | .array _ a => .arrayLiteral a
  | .dictOrSet _ d => .dictOrSetLiteral d
  | .paren _ e => .expr e
  | .literal _ l => .literal l
  | .reference _ r => .reference r

/-- The nodes directly below a node, in order of the source. What is absent has no node. -/
def children : Node π → List (Node π)
  | ast n => n.declarations.map rootDecl
  | rootDecl n => [n.decl.node]
  | importDecl _ => []
  | enumDecl n => typeDecl n.type :: n.members.map enumMember
  | enumMember n => [n.decl.node]
  | caseDecl n => n.payload.toList.map typeDecl
  | classDecl n => typeDecl n.type :: n.members.map classMember
  | classMember n => [n.decl.node]
  | initialiserDecl n => n.parameters.map parameters ++ [block n.body]
  | typeDecl n => n.parameters.map typeParam
  | typeParam n => n.constraints.map reference
  | parameters n => [reference n.type]
  | varDecl n => n.vars.map varBinding
  | varBinding n => n.type.toList.map reference ++ n.value.toList.map expr
  | funcDecl n =>
    n.parameters.map parameters ++ n.result.toList.map reference ++ [block n.body]
  | stmt n => [stmtChild n]
  | block n => n.statements.map stmt
  | returnStmt n => n.value.toList.map expr
  | ifStmt n => expr n.condition :: block n.main :: n.otherwise.toList.map block
  | forStmt n => [reference n.target, expr n.source, block n.body]
  | switchStmt n => expr n.target :: n.cases.map caseStmt
  | caseStmt n => n.selector.toList.map caseSelect ++ n.body.map stmt
  | caseSelect (.enumCase _ pattern) => [enumCase pattern]
  | caseSelect (.expr _ value) => [expr value]
  | enumCase _ => []
  | expr (.binary _ left _ right) => [expr left, expr right]
  | expr (.unary _ operand) => [unary operand]
  | unary (.prefixed _ _ operand) => [unary operand]
  | unary (.terminal _ operand) => [terminal operand]
  | terminal n => [terminalChild n]
  | literal _ => []
  | reference n => n.next.map selector
  | selector (.member _ _) => []
  | selector (.index _ index) => [expr index]
  | selector (.call _ arguments) => [call arguments]
  | call n => n.arguments.map expr
  | arrayLiteral n => n.elements.map expr
  | dictOrSetLiteral n => n.entries.map entry
  | entry n => expr n.key :: n.value.toList.map expr

end Node

end Syntree
