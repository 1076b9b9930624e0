import Syntree.Grammar.State

/-!
Grammars as data.

A grammar for `α` says how a value of type `α` is read from tokens. It refers to the rules of the
language by name, so that the rules, which refer to each other in circles, are ordinary values; what
a grammar means is said once, by running it.
-/

namespace Syntree

/-- The rules of the language. -/
inductive Rule where
  | ast | rootDecl | importDecl | enumDecl | enumMember | caseDecl | classDecl | classMember
  | initialiserDecl | parameters | varDecl | varBinding | funcDecl
  | typeDecl | typeParam
  | stmt | block | returnStmt | ifStmt | forStmt | switchStmt | caseStmt | caseSelect | enumCase
  | expr
  /-- Operands and those operators between them that bind tighter than `min`. -/
  | binary (min : Power)
  | unary | terminal | literal | reference | selector | call | arrayLiteral | dictOrSetLiteral
  | entry
deriving DecidableEq, Repr

namespace Rule

/-- What a rule reads. Positions are indices of tokens. -/
@[reducible] def Result : Rule → Type
  | ast => Ast Nat
  | rootDecl => RootDecl Nat
  | importDecl => ImportDecl Nat
  | enumDecl => EnumDecl Nat
  | enumMember => EnumMember Nat
  | caseDecl => CaseDecl Nat
  | classDecl => ClassDecl Nat
  | classMember => ClassMember Nat
  | initialiserDecl => InitialiserDecl Nat
  | parameters => Parameters Nat
  | varDecl => VarDecl Nat
  | varBinding => VarBinding Nat
  | funcDecl => FuncDecl Nat
  | typeDecl => TypeDecl Nat
  | typeParam => TypeParam Nat
  | stmt => Stmt Nat
  | block => Block Nat
  | returnStmt => ReturnStmt Nat
  | ifStmt => IfStmt Nat
  | forStmt => ForStmt Nat
  | switchStmt => SwitchStmt Nat
  | caseStmt => CaseStmt Nat
  | caseSelect => CaseSelect Nat
  | enumCase => EnumCase Nat
  | expr => Expr Nat
  | binary _ => Expr Nat
  | unary => Unary Nat
  | terminal => Terminal Nat
  | literal => Literal Nat
  | reference => Reference Nat
  | selector => Selector Nat
  | call => Call Nat
  | arrayLiteral => ArrayLiteral Nat
  | dictOrSetLiteral => DictOrSetLiteral Nat
  | entry => Entry Nat

/-- The result of a rule as a node of the tree. -/
def toNode : (r : Rule) → r.Result → Node Nat
  | ast => .ast
  | rootDecl => .rootDecl
  | importDecl => .importDecl
  | enumDecl => .enumDecl
  | enumMember => .enumMember
  | caseDecl => .caseDecl
  | classDecl => .classDecl
  | classMember => .classMember
  | initialiserDecl => .initialiserDecl
  | parameters => .parameters
  | varDecl => .varDecl
  | varBinding => .varBinding
  | funcDecl => .funcDecl
  | typeDecl => .typeDecl
  | typeParam => .typeParam
  | stmt => .stmt
  | block => .block
  | returnStmt => .returnStmt
  | ifStmt => .ifStmt
  | forStmt => .forStmt
  | switchStmt => .switchStmt
  | caseStmt => .caseStmt
  | caseSelect => .caseSelect
  | enumCase => .enumCase
  | expr => .expr
  | binary _ => .expr
  | unary => .unary
  | terminal => .terminal
  | literal => .literal
  | reference => .reference
  | selector => .selector
  | call => .call
  | arrayLiteral => .arrayLiteral
  | dictOrSetLiteral => .dictOrSetLiteral
  | entry => .entry

end Rule

inductive Grammar : Type → Type 1 where
  | done {α : Type} (value : α) : Grammar α
  | bind {α β : Type} (first : Grammar β) (next : β → Grammar α) : Grammar α
  /-- The index of the current token. -/
  | here : Grammar Nat
  /-- The current token, which is not consumed. -/
  | peek : Grammar Lexeme
  /-- Consumes the current token, whatever it is. The end of the input is never passed. -/
  | advance : Grammar Lexeme
  /-- Consumes the current token if it meets one of the expectations. -/
  | expect (es : List Expectation) : Grammar Lexeme
  /-- Consumes the current token if it is a binary operator that binds tighter than `min`. That an
  operator could have stood here is not recorded. -/
  | operatorAbove (min : Power) : Grammar (Option (Op × Power))
  /-- Does not match, and expects nothing. -/
  | fail {α : Type} : Grammar α
  | reject {α : Type} (error : Fatal) : Grammar α
  /-- The second alternative is tried from the start if the first does not match, unless the first
  has read past the lookahead. -/
  | orElse {α : Type} (first second : Grammar α) : Grammar α
  /-- Goes on from one value to the next until a step yields none. -/
  | loop {β : Type} (value : β) (step : β → Grammar (Option β)) : Grammar β
  /-- Runs one level deeper. -/
  | nested {α : Type} (inner : Grammar α) : Grammar α
  | call (rule : Rule) : Grammar rule.Result
  /-- Notes how the inner grammar ended. -/
  | observe {α : Type} (level : Nat) (name : String) (reading : α → Reading) (inner : Grammar α) :
      Grammar α

namespace Grammar

instance : Monad Grammar where
  pure := done
  bind := bind

variable {α : Type}

/-- A token that is written as `text`. -/
def literal (text : String) : Grammar Unit := do
  let _ ← expect [.literal text]

/-- The value of a token of the given kind. -/
def token (kind : TokenKind) : Grammar String := do
  return (← expect [.kind kind]).value

def name : Grammar String := token .ident

/-- The first alternative that matches. -/
def choice (alternatives : List (Grammar α)) : Grammar α :=
  alternatives.foldr orElse fail

/-- A part that may be absent. -/
def attempt (g : Grammar α) : Grammar (Option α) :=
  orElse (do return some (← g)) (pure none)

def optional (text : String) : Grammar Bool := do
  return (← attempt (literal text)).isSome

/-- As many as there are. -/
def many (g : Grammar α) : Grammar (List α) := do
  let items ← loop [] fun items => do
    return (← attempt g).map (· :: items)
  return items.reverse

/-- At least one, with separators between them. -/
def separated (separator : String) (g : Grammar α) : Grammar (List α) := do
  let first ← g
  let others ← many do
    literal separator
    g
  return first :: others

def optionalSeparated (separator : String) (g : Grammar α) : Grammar (List α) := do
  return (← attempt (separated separator g)).getD []

/-- The second part, if it is there, follows a token that is written as `text`. -/
def introduced (text : String) (g : Grammar α) : Grammar (Option α) :=
  attempt do
    literal text
    g

/-- Items in brackets, with commas between them and perhaps one at the end. -/
def listed (opening closing : String) (g : Grammar α) : Grammar (List α) := do
  literal opening
  let items ← optionalSeparated "," g
  let _ ← optional ","
  literal closing
  return items

/-- After some items one more separator may follow. -/
def trailing (separator : String) (items : List α) : Grammar (List α) :=
  if items.isEmpty then pure items
  else do
    let _ ← optional separator
    return items

end Grammar

end Syntree
