import Syntree.Tree.Decl

/-!
Changing the positions of a tree and nothing else.
-/

namespace Syntree

variable {π ρ : Type}

def Literal.map (f : π → ρ) (l : Literal π) : Literal ρ := ⟨f l.pos, l.value⟩

mutual

def Expr.map (f : π → ρ) : Expr π → Expr ρ
  | .binary pos left op right => .binary (f pos) (left.map f) op (right.map f)
  | .unary pos operand => .unary (f pos) (operand.map f)

def Unary.map (f : π → ρ) : Unary π → Unary ρ
  | .prefixed pos op operand => .prefixed (f pos) op (operand.map f)
  | .terminal pos operand => .terminal (f pos) (operand.map f)

def Terminal.map (f : π → ρ) : Terminal π → Terminal ρ
  | .array pos array => .array (f pos) (array.map f)
  | .dictOrSet pos entries => .dictOrSet (f pos) (entries.map f)
  | .paren pos inner => .paren (f pos) (inner.map f)
  | .literal pos literal => .literal (f pos) (literal.map f)
  | .reference pos reference => .reference (f pos) (reference.map f)

def ArrayLiteral.map (f : π → ρ) : ArrayLiteral π → ArrayLiteral ρ
  | ⟨pos, elements⟩ => ⟨f pos, Expr.mapList f elements⟩

def DictOrSetLiteral.map (f : π → ρ) : DictOrSetLiteral π → DictOrSetLiteral ρ
  | ⟨pos, entries⟩ => ⟨f pos, Entry.mapList f entries⟩

def Entry.map (f : π → ρ) : Entry π → Entry ρ
  | ⟨pos, key, value⟩ => ⟨f pos, key.map f, Expr.mapOption f value⟩

def Reference.map (f : π → ρ) : Reference π → Reference ρ
  | ⟨pos, name, next⟩ => ⟨f pos, name, Selector.mapList f next⟩

def Selector.map (f : π → ρ) : Selector π → Selector ρ
  | .member pos name => .member (f pos) name
  | .index pos index => .index (f pos) (index.map f)
  | .call pos call => .call (f pos) (call.map f)

def Call.map (f : π → ρ) : Call π → Call ρ
  | ⟨pos, arguments⟩ => ⟨f pos, Expr.mapList f arguments⟩

def Expr.mapList (f : π → ρ) : List (Expr π) → List (Expr ρ)
  | [] => []
  | e :: es => e.map f :: Expr.mapList f es

def Expr.mapOption (f : π → ρ) : Option (Expr π) → Option (Expr ρ)
  | none => none
  | some e => some (e.map f)

def Entry.mapList (f : π → ρ) : List (Entry π) → List (Entry ρ)
  | [] => []
  | e :: es => e.map f :: Entry.mapList f es

def Selector.mapList (f : π → ρ) : List (Selector π) → List (Selector ρ)
  | [] => []
  | s :: ss => s.map f :: Selector.mapList f ss

end

def TypeParam.map (f : π → ρ) (t : TypeParam π) : TypeParam ρ :=
  ⟨f t.pos, t.name, t.constraints.map (·.map f)⟩

def TypeDecl.map (f : π → ρ) (t : TypeDecl π) : TypeDecl ρ :=
  ⟨f t.pos, t.name, t.parameters.map (·.map f)⟩

def ImportDecl.map (f : π → ρ) (d : ImportDecl π) : ImportDecl ρ :=
  ⟨f d.pos, d.given, d.path⟩

def CaseDecl.map (f : π → ρ) (d : CaseDecl π) : CaseDecl ρ :=
  ⟨f d.pos, d.name, d.payload.map (·.map f)⟩

def Parameters.map (f : π → ρ) (p : Parameters π) : Parameters ρ :=
  ⟨f p.pos, p.names, p.type.map f⟩

def VarBinding.map (f : π → ρ) (v : VarBinding π) : VarBinding ρ :=
  ⟨f v.pos, v.name, v.type.map (·.map f), v.value.map (·.map f)⟩

def VarDecl.map (f : π → ρ) (d : VarDecl π) : VarDecl ρ :=
  ⟨f d.pos, d.vars.map (·.map f)⟩

def ReturnStmt.map (f : π → ρ) (s : ReturnStmt π) : ReturnStmt ρ :=
  ⟨f s.pos, s.value.map (·.map f)⟩

def EnumCase.map (f : π → ρ) (c : EnumCase π) : EnumCase ρ :=
  ⟨f c.pos, c.name, c.binding⟩

def CaseSelect.map (f : π → ρ) : CaseSelect π → CaseSelect ρ
  | .enumCase pos pattern => .enumCase (f pos) (pattern.map f)
  | .expr pos value => .expr (f pos) (value.map f)

mutual

def Stmt.map (f : π → ρ) : Stmt π → Stmt ρ
  | .ret pos stmt => .ret (f pos) (stmt.map f)
  | .cond pos stmt => .cond (f pos) (stmt.map f)
  | .loop pos stmt => .loop (f pos) (stmt.map f)
  | .switch pos stmt => .switch (f pos) (stmt.map f)
  | .block pos block => .block (f pos) (block.map f)
  | .varDecl pos decl => .varDecl (f pos) (decl.map f)
  | .funcDecl pos decl => .funcDecl (f pos) (decl.map f)
  | .classDecl pos decl => .classDecl (f pos) (decl.map f)
  | .enumDecl pos decl => .enumDecl (f pos) (decl.map f)
  | .expression pos expr => .expression (f pos) (expr.map f)

def Block.map (f : π → ρ) : Block π → Block ρ
  | ⟨pos, statements⟩ => ⟨f pos, Stmt.mapList f statements⟩

def IfStmt.map (f : π → ρ) : IfStmt π → IfStmt ρ
  | ⟨pos, condition, main, otherwise⟩ =>
    ⟨f pos, condition.map f, main.map f, Block.mapOption f otherwise⟩

def ForStmt.map (f : π → ρ) : ForStmt π → ForStmt ρ
  | ⟨pos, target, source, body⟩ => ⟨f pos, target.map f, source.map f, body.map f⟩

def SwitchStmt.map (f : π → ρ) : SwitchStmt π → SwitchStmt ρ
  | ⟨pos, target, cases⟩ => ⟨f pos, target.map f, CaseStmt.mapList f cases⟩

def CaseStmt.map (f : π → ρ) : CaseStmt π → CaseStmt ρ
  | ⟨pos, selector, body⟩ => ⟨f pos, selector.map (·.map f), Stmt.mapList f body⟩

def FuncDecl.map (f : π → ρ) : FuncDecl π → FuncDecl ρ
  | ⟨pos, name, parameters, throws, result, body⟩ =>
    ⟨f pos, name, parameters.map (·.map f), throws, result.map (·.map f), body.map f⟩

def InitialiserDecl.map (f : π → ρ) : InitialiserDecl π → InitialiserDecl ρ
  | ⟨pos, parameters, throws, body⟩ => ⟨f pos, parameters.map (·.map f), throws, body.map f⟩

def ClassDecl.map (f : π → ρ) : ClassDecl π → ClassDecl ρ
  | ⟨pos, type, members⟩ => ⟨f pos, type.map f, ClassMember.mapList f members⟩

def ClassMember.map (f : π → ρ) : ClassMember π → ClassMember ρ
  | ⟨pos, modifiers, decl⟩ => ⟨f pos, modifiers, decl.map f⟩

def EnumDecl.map (f : π → ρ) : EnumDecl π → EnumDecl ρ
  | ⟨pos, type, members⟩ => ⟨f pos, type.map f, EnumMember.mapList f members⟩

def EnumMember.map (f : π → ρ) : EnumMember π → EnumMember ρ
  | ⟨pos, modifiers, decl⟩ => ⟨f pos, modifiers, decl.map f⟩

def Decl.map (f : π → ρ) : Decl π → Decl ρ
  | .classDecl decl => .classDecl (decl.map f)
  | .importDecl decl => .importDecl (decl.map f)
  | .enumDecl decl => .enumDecl (decl.map f)
  | .varDecl decl => .varDecl (decl.map f)
  | .funcDecl decl => .funcDecl (decl.map f)
  | .caseDecl decl => .caseDecl (decl.map f)
  | .initialiser decl => .initialiser (decl.map f)

def Stmt.mapList (f : π → ρ) : List (Stmt π) → List (Stmt ρ)
  | [] => []
  | s :: ss => s.map f :: Stmt.mapList f ss

def Block.mapOption (f : π → ρ) : Option (Block π) → Option (Block ρ)
  | none => none
  | some b => some (b.map f)

def CaseStmt.mapList (f : π → ρ) : List (CaseStmt π) → List (CaseStmt ρ)
  | [] => []
  | c :: cs => c.map f :: CaseStmt.mapList f cs

def ClassMember.mapList (f : π → ρ) : List (ClassMember π) → List (ClassMember ρ)
  | [] => []
  | m :: ms => m.map f :: ClassMember.mapList f ms

def EnumMember.mapList (f : π → ρ) : List (EnumMember π) → List (EnumMember ρ)
  | [] => []
  | m :: ms => m.map f :: EnumMember.mapList f ms

end

def RootDecl.map (f : π → ρ) (d : RootDecl π) : RootDecl ρ :=
  ⟨f d.pos, d.modifiers, d.decl.map f⟩

def Ast.map (f : π → ρ) (a : Ast π) : Ast ρ :=
  ⟨f a.pos, a.declarations.map (·.map f)⟩

end Syntree
