import Syntree.Tree.Walk

/-!
A tree as a list of rows, one for each node, from which the tree could be built again. Two trees are
the same when their listings are.
-/

namespace Syntree

/-- A property of a node that none of its children shows. -/
inductive Attribute where
  | text (value : String)
  | texts (values : List String)
  | flag (value : Bool)
  | count (n : Nat)
  | number (value : Decimal.Binary64)
  | absent
deriving DecidableEq, Repr

def Attribute.ofOption : Option String → Attribute
  | some value => text value
  | none => absent

structure Row (π : Type) where
  depth : Nat
  kind : NodeKind
  pos : π
  attributes : List (String × Attribute)
deriving DecidableEq

namespace Node

variable {π : Type}

def attributes : Node π → List (String × Attribute)
  | rootDecl n => [("modifiers", .texts (n.modifiers.map Modifier.spelling))]
  | enumMember n => [("modifiers", .texts (n.modifiers.map Modifier.spelling))]
  | classMember n => [("modifiers", .texts (n.modifiers.map Modifier.spelling))]
  | importDecl n => [("alias", .ofOption n.given), ("path", .text n.path)]
  | caseDecl n => [("name", .text n.name), ("payload", .flag n.payload.isSome)]
  | initialiserDecl n => [("throws", .flag n.throws)]
  | typeDecl n => [("name", .text n.name), ("generic", .flag n.isGeneric)]
  | typeParam n => [("name", .text n.name)]
  | parameters n => [("names", .texts n.names)]
  | varBinding n =>
    [("name", .text n.name), ("type", .flag n.type.isSome), ("default", .flag n.value.isSome)]
  | funcDecl n =>
    [("name", .text n.name), ("throws", .flag n.throws), ("returns", .flag n.result.isSome)]
  | block n => [("length", .count n.statements.length)]
  | returnStmt n => [("value", .flag n.value.isSome)]
  | ifStmt n => [("else", .flag n.otherwise.isSome)]
  | caseStmt n => [("default", .flag n.selector.isNone)]
  | enumCase n => [("name", .text n.name), ("binding", .ofOption n.binding)]
  | expr (.binary _ _ op _) => [("op", .text op.spelling)]
  | unary (.prefixed _ op _) => [("op", .text op.spelling)]
  | terminal (.paren _ _) => [("paren", .flag true)]
  | terminal _ => [("paren", .flag false)]
  | literal ⟨_, .number value⟩ => [("bits", .number value)]
  | literal ⟨_, .string value⟩ => [("string", .text value)]
  | reference n => [("name", .text n.name), ("path", .text n.path)]
  | selector (.member _ name) => [("member", .text name)]
  | selector (.index _ _) => [("index", .flag true)]
  | selector (.call _ _) => [("call", .flag true)]
  | _ => []

def listing (n : Node π) : List (Row π) :=
  (n.preorder 0).map fun (depth, n) => ⟨depth, n.kind, n.pos, n.attributes⟩

end Node

/-- Whether two trees agree in everything, positions included. -/
def Ast.same {π : Type} [DecidableEq π] (a b : Ast π) : Bool :=
  (Node.ast a).listing == (Node.ast b).listing

end Syntree
