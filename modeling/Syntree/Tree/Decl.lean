import Syntree.Tree.Expr
import Syntree.Modifier

/-!
Statements and declarations. Each can hold the other: a function has a body of statements, and a
statement may declare a function, a class or an enum.
-/

namespace Syntree

/-- A type parameter with the types that constrain it. -/
structure TypeParam (π : Type) where
  pos : π
  name : String
  constraints : List (Reference π)

/-- The name of a class, enum or payload, with type parameters. -/
structure TypeDecl (π : Type) where
  pos : π
  name : String
  parameters : List (TypeParam π)

def TypeDecl.isGeneric {π : Type} (t : TypeDecl π) : Bool :=
  !t.parameters.isEmpty

/-- An import goes by the name it is given here or, without one, by its path. -/
structure ImportDecl (π : Type) where
  pos : π
  given : Option String
  path : String

/-- A variant of an enum. -/
structure CaseDecl (π : Type) where
  pos : π
  name : String
  payload : Option (TypeDecl π)

/-- Parameters that share a type. -/
structure Parameters (π : Type) where
  pos : π
  names : List String
  type : Reference π

/-- One variable of a group, with the type and the value it is given. -/
structure VarBinding (π : Type) where
  pos : π
  name : String
  type : Option (Reference π)
  value : Option (Expr π)

structure VarDecl (π : Type) where
  pos : π
  vars : List (VarBinding π)

structure ReturnStmt (π : Type) where
  pos : π
  value : Option (Expr π)

/-- An enum variant to match, and the name its payload is bound to. -/
structure EnumCase (π : Type) where
  pos : π
  name : String
  binding : Option String

/-- What a case of a switch matches. -/
inductive CaseSelect (π : Type) where
  | enumCase (pos : π) (pattern : EnumCase π)
  | expr (pos : π) (value : Expr π)

def CaseSelect.pos {π : Type} : CaseSelect π → π
  | .enumCase pos _ | .expr pos _ => pos

mutual

inductive Stmt (π : Type) where
  | ret (pos : π) (stmt : ReturnStmt π)
  | cond (pos : π) (stmt : IfStmt π)
  | loop (pos : π) (stmt : ForStmt π)
  | switch (pos : π) (stmt : SwitchStmt π)
  | block (pos : π) (block : Block π)
  | varDecl (pos : π) (decl : VarDecl π)
  | funcDecl (pos : π) (decl : FuncDecl π)
  | classDecl (pos : π) (decl : ClassDecl π)
  | enumDecl (pos : π) (decl : EnumDecl π)
  | expression (pos : π) (expr : Expr π)

structure Block (π : Type) where
  pos : π
  statements : List (Stmt π)

structure IfStmt (π : Type) where
  pos : π
  condition : Expr π
  main : Block π
  otherwise : Option (Block π)

structure ForStmt (π : Type) where
  pos : π
  target : Reference π
  source : Expr π
  body : Block π

structure SwitchStmt (π : Type) where
  pos : π
  target : Expr π
  cases : List (CaseStmt π)

/-- A case without a selector is the default one. -/
structure CaseStmt (π : Type) where
  pos : π
  selector : Option (CaseSelect π)
  body : List (Stmt π)

structure FuncDecl (π : Type) where
  pos : π
  name : String
  parameters : List (Parameters π)
  throws : Bool
  result : Option (Reference π)
  body : Block π

structure InitialiserDecl (π : Type) where
  pos : π
  parameters : List (Parameters π)
  throws : Bool
  body : Block π

structure ClassDecl (π : Type) where
  pos : π
  type : TypeDecl π
  members : List (ClassMember π)

structure ClassMember (π : Type) where
  pos : π
  modifiers : List Modifier
  decl : Decl π

structure EnumDecl (π : Type) where
  pos : π
  type : TypeDecl π
  members : List (EnumMember π)

structure EnumMember (π : Type) where
  pos : π
  modifiers : List Modifier
  decl : Decl π

/-- Anything that can stand as a declaration. Which of them may stand where is up to the grammar. -/
inductive Decl (π : Type) where
  | classDecl (decl : ClassDecl π)
  | importDecl (decl : ImportDecl π)
  | enumDecl (decl : EnumDecl π)
  | varDecl (decl : VarDecl π)
  | funcDecl (decl : FuncDecl π)
  | caseDecl (decl : CaseDecl π)
  | initialiser (decl : InitialiserDecl π)

end

def Stmt.pos {π : Type} : Stmt π → π
  | .ret pos _ | .cond pos _ | .loop pos _ | .switch pos _ | .block pos _ | .varDecl pos _
  | .funcDecl pos _ | .classDecl pos _ | .enumDecl pos _ | .expression pos _ => pos

/-- The names of all parameters, in order. -/
def FuncDecl.parameterNames {π : Type} (f : FuncDecl π) : List String :=
  f.parameters.flatMap (·.names)

/-- A declaration at the top of a source. -/
structure RootDecl (π : Type) where
  pos : π
  modifiers : List Modifier
  decl : Decl π

/-- The tree of a whole source. -/
structure Ast (π : Type) where
  pos : π
  declarations : List (RootDecl π)

end Syntree
