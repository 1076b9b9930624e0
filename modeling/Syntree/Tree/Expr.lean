import Syntree.Operator
import Syntree.Decimal.Binary64

/-!
Expressions.

Every node of a tree carries a position of a type `π` that is left open: while parsing it is the
index of a token, in a finished tree a place in the source.
-/

namespace Syntree

/-- A number or a string. -/
inductive LiteralValue where
  | number (value : Decimal.Binary64)
  | string (value : String)
deriving DecidableEq, Repr

structure Literal (π : Type) where
  pos : π
  value : LiteralValue
deriving DecidableEq

mutual

inductive Expr (π : Type) where
  | binary (pos : π) (left : Expr π) (op : Op) (right : Expr π)
  | unary (pos : π) (operand : Unary π)

/-- An operand with the operators before it. -/
inductive Unary (π : Type) where
  | prefixed (pos : π) (op : Op) (operand : Unary π)
  | terminal (pos : π) (operand : Terminal π)

inductive Terminal (π : Type) where
  | array (pos : π) (array : ArrayLiteral π)
  | dictOrSet (pos : π) (entries : DictOrSetLiteral π)
  | paren (pos : π) (inner : Expr π)
  | literal (pos : π) (literal : Literal π)
  | reference (pos : π) (reference : Reference π)

structure ArrayLiteral (π : Type) where
  pos : π
  elements : List (Expr π)

/-- Entries without a value make a set. -/
structure DictOrSetLiteral (π : Type) where
  pos : π
  entries : List (Entry π)

structure Entry (π : Type) where
  pos : π
  key : Expr π
  value : Option (Expr π)

/-- A name and what is selected from it. -/
structure Reference (π : Type) where
  pos : π
  name : String
  next : List (Selector π)

inductive Selector (π : Type) where
  | member (pos : π) (name : String)
  | index (pos : π) (index : Expr π)
  | call (pos : π) (call : Call π)

structure Call (π : Type) where
  pos : π
  arguments : List (Expr π)

end

section Positions

variable {π : Type}

def Expr.pos : Expr π → π
  | .binary pos .. | .unary pos .. => pos

def Unary.pos : Unary π → π
  | .prefixed pos .. | .terminal pos .. => pos

def Terminal.pos : Terminal π → π
  | .array pos .. | .dictOrSet pos .. | .paren pos .. | .literal pos .. | .reference pos .. => pos

def Selector.pos : Selector π → π
  | .member pos .. | .index pos .. | .call pos .. => pos

/-- The names of the members selected before anything else is. -/
def Selector.members : List (Selector π) → List String
  | .member _ name :: rest => name :: members rest
  | _ => []

/-- The dotted path up to the first index or call. -/
def Reference.path (r : Reference π) : String :=
  String.intercalate "." (r.name :: Selector.members r.next)

end Positions

end Syntree
