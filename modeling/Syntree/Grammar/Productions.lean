import Syntree.Decimal.Numeral
import Syntree.Grammar

/-!
The rules of the language, each with the production it stands for.
-/

namespace Syntree.Grammar

/-! Types -/

/-- `name ("<" typeParam ("," typeParam)* ","? ">")?` -/
def typeDecl : Grammar (TypeDecl Nat) := do
  let pos ← here
  let name ← name
  let parameters ← attempt do
    literal "<"
    let parameters ← separated "," (call .typeParam)
    let _ ← optional ","
    literal ">"
    return parameters
  return ⟨pos, name, parameters.getD []⟩

/-- `name (":" reference ("," reference)*)?`, where the constraints take every comma they can. -/
def typeParam : Grammar (TypeParam Nat) := do
  let pos ← here
  let name ← name
  let constraints ← introduced ":" (separated "," (call .reference))
  return ⟨pos, name, constraints.getD []⟩

/-! Declarations -/

def modifiers : Grammar (List Modifier) := do
  return Modifier.among (← many (token .modifier))

/-- `rootDecl* EOF` -/
def ast : Grammar (Ast Nat) := do
  let pos ← here
  let declarations ← many (call .rootDecl)
  let _ ← token .eof
  return ⟨pos, declarations⟩

/-- What may be declared at the top, with a semicolon after it if wanted. Variables require it. -/
def rootAlternatives : List (Grammar (Decl Nat)) := [
  do
    let decl ← call .classDecl
    let _ ← optional ";"
    return .classDecl decl,
  do
    let decl ← call .importDecl
    let _ ← optional ";"
    return .importDecl decl,
  do
    let decl ← call .enumDecl
    let _ ← optional ";"
    return .enumDecl decl,
  do
    let decl ← call .varDecl
    literal ";"
    return .varDecl decl,
  do
    let decl ← call .funcDecl
    let _ ← optional ";"
    return .funcDecl decl]

/-- `modifier*` and one of the alternatives -/
def rootDeclAmong (alternatives : List (Grammar (Decl Nat))) : Grammar (RootDecl Nat) := do
  let pos ← here
  let modifiers ← modifiers
  let decl ← choice alternatives
  return ⟨pos, modifiers, decl⟩

def rootDecl : Grammar (RootDecl Nat) := rootDeclAmong rootAlternatives

/-- `"import" name? string` -/
def importDecl : Grammar (ImportDecl Nat) := do
  let pos ← here
  literal "import"
  let given ← attempt name
  let path ← token .string
  return ⟨pos, given, path⟩

/-- `"{" (member (";" member)* ";"?)? "}"` -/
def members {α : Type} (member : Grammar α) : Grammar (List α) := do
  literal "\x7b"
  let items ← nested (optionalSeparated ";" member)
  let items ← trailing ";" items
  literal "\x7d"
  return items

/-- `"enum" typeDecl members` -/
def enumDecl : Grammar (EnumDecl Nat) := do
  let pos ← here
  literal "enum"
  let type ← call .typeDecl
  let members ← members (call .enumMember)
  return ⟨pos, type, members⟩

/-- What may be declared in an enum. -/
def enumAlternatives : List (Grammar (Decl Nat)) := [
  do return .caseDecl (← call .caseDecl),
  do return .varDecl (← call .varDecl),
  do return .funcDecl (← call .funcDecl),
  do return .classDecl (← call .classDecl),
  do return .enumDecl (← call .enumDecl),
  do return .initialiser (← call .initialiserDecl)]

/-- `modifier*` and one of the alternatives -/
def enumMemberAmong (alternatives : List (Grammar (Decl Nat))) : Grammar (EnumMember Nat) := do
  let pos ← here
  let modifiers ← modifiers
  let decl ← choice alternatives
  return ⟨pos, modifiers, decl⟩

def enumMember : Grammar (EnumMember Nat) := enumMemberAmong enumAlternatives

/-- `"case" name ("(" typeDecl ")")?` -/
def caseDecl : Grammar (CaseDecl Nat) := do
  let pos ← here
  literal "case"
  let name ← name
  let payload ← attempt do
    literal "("
    let payload ← call .typeDecl
    literal ")"
    return payload
  return ⟨pos, name, payload⟩

/-- `"class" typeDecl members` -/
def classDecl : Grammar (ClassDecl Nat) := do
  let pos ← here
  literal "class"
  let type ← call .typeDecl
  let members ← members (call .classMember)
  return ⟨pos, type, members⟩

/-- What may be declared in a class. -/
def classAlternatives : List (Grammar (Decl Nat)) := [
  do return .varDecl (← call .varDecl),
  do return .funcDecl (← call .funcDecl),
  do return .classDecl (← call .classDecl),
  do return .enumDecl (← call .enumDecl),
  do return .initialiser (← call .initialiserDecl)]

/-- `modifier*` and one of the alternatives -/
def classMemberAmong (alternatives : List (Grammar (Decl Nat))) : Grammar (ClassMember Nat) := do
  let pos ← here
  let modifiers ← modifiers
  let decl ← choice alternatives
  return ⟨pos, modifiers, decl⟩

def classMember : Grammar (ClassMember Nat) := classMemberAmong classAlternatives

/-- `"(" (parameters ("," parameters)*)? ","? ")"` -/
def parameterList : Grammar (List (Parameters Nat)) :=
  listed "(" ")" (call .parameters)

/-- `"init" parameterList "throws"? block` -/
def initialiserDecl : Grammar (InitialiserDecl Nat) := do
  let pos ← here
  literal "init"
  let parameters ← parameterList
  let throws ← optional "throws"
  let body ← call .block
  return ⟨pos, parameters, throws, body⟩

/-- `name ("," name)* ":" reference` -/
def parameters : Grammar (Parameters Nat) := do
  let pos ← here
  let names ← separated "," name
  literal ":"
  let type ← call .reference
  return ⟨pos, names, type⟩

/-- `"let" varBinding ("," varBinding)*` -/
def varDecl : Grammar (VarDecl Nat) := do
  let pos ← here
  literal "let"
  let vars ← separated "," (call .varBinding)
  return ⟨pos, vars⟩

/-- `name (":" reference)? ("=" expr)?` -/
def varBinding : Grammar (VarBinding Nat) := do
  let pos ← here
  let name ← name
  let type ← introduced ":" (call .reference)
  let value ← introduced "=" (call .expr)
  return ⟨pos, name, type, value⟩

/-- `"fn" name parameterList "throws"? (":" reference)? block` -/
def funcDecl : Grammar (FuncDecl Nat) := do
  let pos ← here
  literal "fn"
  let name ← name
  let parameters ← parameterList
  let throws ← optional "throws"
  let result ← introduced ":" (call .reference)
  let body ← call .block
  return ⟨pos, name, parameters, throws, result, body⟩

/-! Statements -/

/-- Statements that a word or a brace announces. -/
def announcedStatements (pos : Nat) : List (Grammar (Stmt Nat)) := [
  do return .ret pos (← call .returnStmt),
  do return .cond pos (← call .ifStmt),
  do return .loop pos (← call .forStmt),
  do return .switch pos (← call .switchStmt),
  do return .block pos (← call .block),
  do return .varDecl pos (← call .varDecl),
  do return .funcDecl pos (← call .funcDecl),
  do return .classDecl pos (← call .classDecl),
  do return .enumDecl pos (← call .enumDecl)]

/-- One of the alternatives, and an expression if none of them matches. -/
def stmtAmong (alternatives : Nat → List (Grammar (Stmt Nat))) : Grammar (Stmt Nat) := do
  let pos ← here
  choice (alternatives pos ++ [do return .expression pos (← call .expr)])

def stmt : Grammar (Stmt Nat) := stmtAmong announcedStatements

/-- `(stmt (";" stmt)* ";"?)?` -/
def statements : Grammar (List (Stmt Nat)) := do
  let items ← optionalSeparated ";" (call .stmt)
  trailing ";" items

/-- `"{" statements "}"` -/
def block : Grammar (Block Nat) := do
  let pos ← here
  literal "\x7b"
  let items ← nested statements
  literal "\x7d"
  return ⟨pos, items⟩

/-- `"return" expr?` -/
def returnStmt : Grammar (ReturnStmt Nat) := do
  let pos ← here
  literal "return"
  let value ← attempt (call .expr)
  return ⟨pos, value⟩

/-- `"if" expr block ("else" block)?` -/
def ifStmt : Grammar (IfStmt Nat) := do
  let pos ← here
  literal "if"
  let condition ← call .expr
  let main ← call .block
  let otherwise ← introduced "else" (call .block)
  return ⟨pos, condition, main, otherwise⟩

/-- `"for" reference "in" expr block` -/
def forStmt : Grammar (ForStmt Nat) := do
  let pos ← here
  literal "for"
  let target ← call .reference
  literal "in"
  let source ← call .expr
  let body ← call .block
  return ⟨pos, target, source, body⟩

/-- `"switch" expr "{" caseStmt* "}"` -/
def switchStmt : Grammar (SwitchStmt Nat) := do
  let pos ← here
  literal "switch"
  let target ← call .expr
  literal "\x7b"
  let cases ← many (call .caseStmt)
  literal "\x7d"
  return ⟨pos, target, cases⟩

/-- `("default" | "case" caseSelect) ":" statements` -/
def caseStmt : Grammar (CaseStmt Nat) := do
  let pos ← here
  let selector ← choice [
    do
      literal "default"
      return none,
    do
      literal "case"
      return some (← call .caseSelect)]
  literal ":"
  let body ← statements
  return ⟨pos, selector, body⟩

/-- `enumCase | expr` -/
def caseSelect : Grammar (CaseSelect Nat) := do
  let pos ← here
  choice [
    do return .enumCase pos (← call .enumCase),
    do return .expr pos (← call .expr)]

/-- `"." name ("(" name ")")?` -/
def enumCase : Grammar (EnumCase Nat) := do
  let pos ← here
  literal "."
  let variant ← name
  let binding ← attempt do
    literal "("
    let binding ← name
    literal ")"
    return binding
  return ⟨pos, variant, binding⟩

/-! Expressions -/

def expr : Grammar (Expr Nat) :=
  nested (call (.binary .lowest))

/-- `unary (operator binary)*`, folding to the left what binds tighter than `min`. -/
def binary (min : Power) : Grammar (Expr Nat) := do
  let first ← call .unary
  loop (.unary first.pos first) fun left => do
    match ← operatorAbove min with
    | none => return none
    | some (op, p) =>
      let right ← call (.binary p.rightOperand)
      return some (.binary left.pos left op right)

/-- `("!" | "-") unary | terminal` -/
def unary : Grammar (Unary Nat) :=
  choice [
    do
      let pos ← here
      let sign ← expect (unaryOperators.map fun op => .literal op.spelling)
      let operand ← nested (call .unary)
      return .prefixed pos (if sign.value = Op.not.spelling then .not else .sub) operand,
    do
      let operand ← call .terminal
      return .terminal operand.pos operand]

/-- `arrayLiteral | dictOrSetLiteral | "(" expr ")" | literal | reference` -/
def terminal : Grammar (Terminal Nat) := do
  let pos ← here
  choice [
    do return .array pos (← call .arrayLiteral),
    do return .dictOrSet pos (← call .dictOrSetLiteral),
    do
      literal "("
      let inner ← call .expr
      literal ")"
      return .paren pos inner,
    do return .literal pos (← call .literal),
    do return .reference pos (← call .reference)]

/-- A number that has a finite value. -/
def number : Grammar Decimal.Binary64 := do
  let index ← here
  let text ← token .number
  match Decimal.Binary64.ofText? text.toList with
  | some value => return value
  | none => reject (.numberOutOfRange text index)

/-- `number | string` -/
def literalValue : Grammar (Literal Nat) := do
  let pos ← here
  let value ← choice [
    do return .number (← number),
    do return .string (← token .string)]
  return ⟨pos, value⟩

/-- `name selector*` -/
def reference : Grammar (Reference Nat) := do
  let pos ← here
  let name ← name
  let next ← many (call .selector)
  return ⟨pos, name, next⟩

/-- `"." name | "[" expr "]" | arguments` -/
def selector : Grammar (Selector Nat) := do
  let pos ← here
  choice [
    do
      literal "."
      return .member pos (← name),
    do
      literal "["
      let index ← call .expr
      literal "]"
      return .index pos index,
    do return .call pos (← call .call)]

/-- `"(" (expr ("," expr)*)? ","? ")"` -/
def arguments : Grammar (Call Nat) := do
  let pos ← here
  return ⟨pos, ← listed "(" ")" (call .expr)⟩

/-- `"[" (expr ("," expr)*)? ","? "]"` -/
def arrayLiteral : Grammar (ArrayLiteral Nat) := do
  let pos ← here
  return ⟨pos, ← listed "[" "]" (call .expr)⟩

/-- `"{" (entry ("," entry)*)? ","? "}"` -/
def dictOrSetLiteral : Grammar (DictOrSetLiteral Nat) := do
  let pos ← here
  return ⟨pos, ← listed "\x7b" "\x7d" (call .entry)⟩

/-- `expr (":" expr)?` -/
def entry : Grammar (Entry Nat) := do
  let pos ← here
  let key ← call .expr
  let value ← introduced ":" (call .expr)
  return ⟨pos, key, value⟩

end Grammar

/-- What each rule stands for. -/
def Rule.production : (r : Rule) → Grammar r.Result
  | ast => Grammar.ast
  | rootDecl => Grammar.rootDecl
  | importDecl => Grammar.importDecl
  | enumDecl => Grammar.enumDecl
  | enumMember => Grammar.enumMember
  | caseDecl => Grammar.caseDecl
  | classDecl => Grammar.classDecl
  | classMember => Grammar.classMember
  | initialiserDecl => Grammar.initialiserDecl
  | parameters => Grammar.parameters
  | varDecl => Grammar.varDecl
  | varBinding => Grammar.varBinding
  | funcDecl => Grammar.funcDecl
  | typeDecl => Grammar.typeDecl
  | typeParam => Grammar.typeParam
  | stmt => Grammar.stmt
  | block => Grammar.block
  | returnStmt => Grammar.returnStmt
  | ifStmt => Grammar.ifStmt
  | forStmt => Grammar.forStmt
  | switchStmt => Grammar.switchStmt
  | caseStmt => Grammar.caseStmt
  | caseSelect => Grammar.caseSelect
  | enumCase => Grammar.enumCase
  | expr => Grammar.expr
  | binary min => Grammar.binary min
  | unary => Grammar.unary
  | terminal => Grammar.terminal
  | literal => Grammar.literalValue
  | reference => Grammar.reference
  | selector => Grammar.selector
  | call => Grammar.arguments
  | arrayLiteral => Grammar.arrayLiteral
  | dictOrSetLiteral => Grammar.dictOrSetLiteral
  | entry => Grammar.entry

end Syntree
