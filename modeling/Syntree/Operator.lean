import Syntree.Token

/-!
Operators, their spellings, and how tightly the binary ones bind.
-/

namespace Syntree

inductive Op where
  | modAsgn | ge | le | and | or | eq | ne | addAsgn | subAsgn | mulAsgn | divAsgn | powAsgn
  | sub | asgn | add | mul | div | lt | gt | mod | pow | not | send
deriving DecidableEq, Repr

namespace Op

def all : List Op :=
  [modAsgn, ge, le, and, or, eq, ne, addAsgn, subAsgn, mulAsgn, divAsgn, powAsgn, sub, asgn, add,
    mul, div, lt, gt, mod, pow, not, send]

def name : Op → String
  | modAsgn => "ModAsgn"
  | ge => "Ge"
  | le => "Le"
  | and => "And"
  | or => "Or"
  | eq => "Eq"
  | ne => "Ne"
  | addAsgn => "AddAsgn"
  | subAsgn => "SubAsgn"
  | mulAsgn => "MulAsgn"
  | divAsgn => "DivAsgn"
  | powAsgn => "PowAsgn"
  | sub => "Sub"
  | asgn => "Asgn"
  | add => "Add"
  | mul => "Mul"
  | div => "Div"
  | lt => "Lt"
  | gt => "Gt"
  | mod => "Mod"
  | pow => "Pow"
  | not => "Not"
  | send => "Send"

def spelling : Op → String
  | modAsgn => "%="
  | ge => ">="
  | le => "<="
  | and => "&&"
  | or => "||"
  | eq => "=="
  | ne => "!="
  | addAsgn => "+="
  | subAsgn => "-="
  | mulAsgn => "*="
  | divAsgn => "/="
  | powAsgn => "^="
  | sub => "-"
  | asgn => "="
  | add => "+"
  | mul => "*"
  | div => "/"
  | lt => "<"
  | gt => ">"
  | mod => "%"
  | pow => "^"
  | not => "!"
  | send => "->"

def ofSpelling? (text : String) : Option Op :=
  all.find? (·.spelling == text)

def isAssignment : Op → Bool
  | asgn | addAsgn | subAsgn | mulAsgn | divAsgn | modAsgn | powAsgn => true
  | _ => false

end Op

/-- How tightly a binary operator binds, loosest first. -/
inductive Power where
  | lowest | assignment | send | logicalOr | logicalAnd | equality | relational | additive
  | multiplicative | power
deriving DecidableEq, Repr

namespace Power

def all : List Power :=
  [lowest, assignment, send, logicalOr, logicalAnd, equality, relational, additive,
    multiplicative, power]

def name : Power → String
  | lowest => "Default"
  | assignment => "Assignment"
  | send => "Send"
  | logicalOr => "LogicalOr"
  | logicalAnd => "LogicalAnd"
  | equality => "Equality"
  | relational => "Relational"
  | additive => "Additive"
  | multiplicative => "Multiplicative"
  | power => "Power"

def ofName? (name : String) : Option Power :=
  all.find? (·.name == name)

def rank : Power → Nat
  | lowest => 0
  | assignment => 1
  | send => 2
  | logicalOr => 3
  | logicalAnd => 4
  | equality => 5
  | relational => 6
  | additive => 7
  | multiplicative => 8
  | power => 9

/-- Operators on the right must bind tighter than this. Stepping down a level makes assignment and
power group to the right. -/
def rightOperand : Power → Power
  | assignment => lowest
  | power => multiplicative
  | other => other

end Power

/-- The power of a binary operator; `!` is none. -/
def Op.power? : Op → Option Power
  | asgn | addAsgn | subAsgn | mulAsgn | divAsgn | modAsgn | powAsgn => some .assignment
  | send => some .send
  | or => some .logicalOr
  | and => some .logicalAnd
  | eq | ne => some .equality
  | lt | gt | le | ge => some .relational
  | add | sub => some .additive
  | mul | div | mod => some .multiplicative
  | pow => some .power
  | not => none

/-- Operators that may stand before their operand. -/
def unaryOperators : List Op := [.not, .sub]

/-- The binary operator that a token spells, with its power. -/
def Lexeme.binaryOperator? (l : Lexeme) : Option (Op × Power) :=
  if l.kind = .operator then (Op.ofSpelling? l.value).bind fun op => op.power?.map (op, ·)
  else none

end Syntree
