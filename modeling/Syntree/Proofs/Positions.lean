import Syntree.Proofs.Derivation

/-!
Trees up to positions.
-/

namespace Syntree

section Map

variable {π ρ σ : Type} (f : π → ρ) (g : ρ → σ)

mutual

theorem Expr.map_map : (e : Expr π) → (e.map f).map g = e.map (g ∘ f)
  | .binary _ a _ b => by simp [Expr.map, a.map_map, b.map_map]
  | .unary _ u => by simp [Expr.map, u.map_map]

theorem Unary.map_map : (u : Unary π) → (u.map f).map g = u.map (g ∘ f)
  | .prefixed _ _ u => by simp [Unary.map, u.map_map]
  | .terminal _ t => by simp [Unary.map, t.map_map]

theorem Terminal.map_map : (t : Terminal π) → (t.map f).map g = t.map (g ∘ f)
  | .array _ a => by simp [Terminal.map, a.map_map]
  | .dictOrSet _ d => by simp [Terminal.map, d.map_map]
  | .paren _ e => by simp [Terminal.map, e.map_map]
  | .literal _ _ => by simp [Terminal.map, Literal.map]
  | .reference _ r => by simp [Terminal.map, r.map_map]

theorem ArrayLiteral.map_map : (a : ArrayLiteral π) → (a.map f).map g = a.map (g ∘ f)
  | ⟨_, es⟩ => by simp [ArrayLiteral.map, Expr.mapList_map es]

theorem DictOrSetLiteral.map_map : (d : DictOrSetLiteral π) → (d.map f).map g = d.map (g ∘ f)
  | ⟨_, es⟩ => by simp [DictOrSetLiteral.map, Entry.mapList_map es]

theorem Entry.map_map : (e : Entry π) → (e.map f).map g = e.map (g ∘ f)
  | ⟨_, k, v⟩ => by simp [Entry.map, k.map_map, Expr.mapOption_map v]

theorem Reference.map_map : (r : Reference π) → (r.map f).map g = r.map (g ∘ f)
  | ⟨_, _, ss⟩ => by simp [Reference.map, Selector.mapList_map ss]

theorem Selector.map_map : (s : Selector π) → (s.map f).map g = s.map (g ∘ f)
  | .member _ _ => by simp [Selector.map]
  | .index _ e => by simp [Selector.map, e.map_map]
  | .call _ c => by simp [Selector.map, c.map_map]

theorem Call.map_map : (c : Call π) → (c.map f).map g = c.map (g ∘ f)
  | ⟨_, es⟩ => by simp [Call.map, Expr.mapList_map es]

theorem Expr.mapList_map : (es : List (Expr π)) →
    Expr.mapList g (Expr.mapList f es) = Expr.mapList (g ∘ f) es
  | [] => by simp [Expr.mapList]
  | e :: es => by simp [Expr.mapList, e.map_map, Expr.mapList_map es]

theorem Expr.mapOption_map : (e : Option (Expr π)) →
    Expr.mapOption g (Expr.mapOption f e) = Expr.mapOption (g ∘ f) e
  | none => by simp [Expr.mapOption]
  | some e => by simp [Expr.mapOption, e.map_map]

theorem Entry.mapList_map : (es : List (Entry π)) →
    Entry.mapList g (Entry.mapList f es) = Entry.mapList (g ∘ f) es
  | [] => by simp [Entry.mapList]
  | e :: es => by simp [Entry.mapList, e.map_map, Entry.mapList_map es]

theorem Selector.mapList_map : (ss : List (Selector π)) →
    Selector.mapList g (Selector.mapList f ss) = Selector.mapList (g ∘ f) ss
  | [] => by simp [Selector.mapList]
  | s :: ss => by simp [Selector.mapList, s.map_map, Selector.mapList_map ss]

end

theorem TypeParam.map_map (t : TypeParam π) : (t.map f).map g = t.map (g ∘ f) := by
  simp [TypeParam.map, Reference.map_map]

theorem TypeDecl.map_map (t : TypeDecl π) : (t.map f).map g = t.map (g ∘ f) := by
  simp [TypeDecl.map, TypeParam.map_map]

theorem CaseDecl.map_map (d : CaseDecl π) : (d.map f).map g = d.map (g ∘ f) := by
  simp [CaseDecl.map, Function.comp_def, TypeDecl.map_map]

theorem Parameters.map_map (p : Parameters π) : (p.map f).map g = p.map (g ∘ f) := by
  simp [Parameters.map, Reference.map_map]

theorem VarBinding.map_map (v : VarBinding π) : (v.map f).map g = v.map (g ∘ f) := by
  simp [VarBinding.map, Function.comp_def, Reference.map_map, Expr.map_map]

theorem VarDecl.map_map (d : VarDecl π) : (d.map f).map g = d.map (g ∘ f) := by
  simp [VarDecl.map, VarBinding.map_map]

theorem ReturnStmt.map_map (s : ReturnStmt π) : (s.map f).map g = s.map (g ∘ f) := by
  simp [ReturnStmt.map, Function.comp_def, Expr.map_map]

theorem CaseSelect.map_map (c : CaseSelect π) : (c.map f).map g = c.map (g ∘ f) := by
  cases c <;> simp [CaseSelect.map, EnumCase.map, Expr.map_map]

mutual

theorem Stmt.map_map : (s : Stmt π) → (s.map f).map g = s.map (g ∘ f)
  | .ret _ s => by simp [Stmt.map, s.map_map]
  | .cond _ s => by simp [Stmt.map, s.map_map]
  | .loop _ s => by simp [Stmt.map, s.map_map]
  | .switch _ s => by simp [Stmt.map, s.map_map]
  | .block _ b => by simp [Stmt.map, b.map_map]
  | .varDecl _ d => by simp [Stmt.map, d.map_map]
  | .funcDecl _ d => by simp [Stmt.map, d.map_map]
  | .classDecl _ d => by simp [Stmt.map, d.map_map]
  | .enumDecl _ d => by simp [Stmt.map, d.map_map]
  | .expression _ e => by simp [Stmt.map, e.map_map]

theorem Block.map_map : (b : Block π) → (b.map f).map g = b.map (g ∘ f)
  | ⟨_, ss⟩ => by simp [Block.map, Stmt.mapList_map ss]

theorem IfStmt.map_map : (s : IfStmt π) → (s.map f).map g = s.map (g ∘ f)
  | ⟨_, e, a, b⟩ => by simp [IfStmt.map, e.map_map, a.map_map, Block.mapOption_map b]

theorem ForStmt.map_map : (s : ForStmt π) → (s.map f).map g = s.map (g ∘ f)
  | ⟨_, r, e, b⟩ => by simp [ForStmt.map, r.map_map, e.map_map, b.map_map]

theorem SwitchStmt.map_map : (s : SwitchStmt π) → (s.map f).map g = s.map (g ∘ f)
  | ⟨_, e, cs⟩ => by simp [SwitchStmt.map, e.map_map, CaseStmt.mapList_map cs]

theorem CaseStmt.map_map : (c : CaseStmt π) → (c.map f).map g = c.map (g ∘ f)
  | ⟨_, c, ss⟩ => by
    simp [CaseStmt.map, Function.comp_def, CaseSelect.map_map, Stmt.mapList_map ss]

theorem FuncDecl.map_map : (d : FuncDecl π) → (d.map f).map g = d.map (g ∘ f)
  | ⟨_, _, ps, _, r, b⟩ => by
    simp [FuncDecl.map, Function.comp_def, Parameters.map_map, Reference.map_map, b.map_map]

theorem InitialiserDecl.map_map : (d : InitialiserDecl π) → (d.map f).map g = d.map (g ∘ f)
  | ⟨_, ps, _, b⟩ => by simp [InitialiserDecl.map, Parameters.map_map, b.map_map]

theorem ClassDecl.map_map : (d : ClassDecl π) → (d.map f).map g = d.map (g ∘ f)
  | ⟨_, t, ms⟩ => by simp [ClassDecl.map, t.map_map, ClassMember.mapList_map ms]

theorem ClassMember.map_map : (m : ClassMember π) → (m.map f).map g = m.map (g ∘ f)
  | ⟨_, _, d⟩ => by simp [ClassMember.map, d.map_map]

theorem EnumDecl.map_map : (d : EnumDecl π) → (d.map f).map g = d.map (g ∘ f)
  | ⟨_, t, ms⟩ => by simp [EnumDecl.map, t.map_map, EnumMember.mapList_map ms]

theorem EnumMember.map_map : (m : EnumMember π) → (m.map f).map g = m.map (g ∘ f)
  | ⟨_, _, d⟩ => by simp [EnumMember.map, d.map_map]

theorem Decl.map_map : (d : Decl π) → (d.map f).map g = d.map (g ∘ f)
  | .classDecl d => by simp [Decl.map, d.map_map]
  | .importDecl _ => by simp [Decl.map, ImportDecl.map]
  | .enumDecl d => by simp [Decl.map, d.map_map]
  | .varDecl d => by simp [Decl.map, d.map_map]
  | .funcDecl d => by simp [Decl.map, d.map_map]
  | .caseDecl d => by simp [Decl.map, d.map_map]
  | .initialiser d => by simp [Decl.map, d.map_map]

theorem Stmt.mapList_map : (ss : List (Stmt π)) →
    Stmt.mapList g (Stmt.mapList f ss) = Stmt.mapList (g ∘ f) ss
  | [] => by simp [Stmt.mapList]
  | s :: ss => by simp [Stmt.mapList, s.map_map, Stmt.mapList_map ss]

theorem Block.mapOption_map : (b : Option (Block π)) →
    Block.mapOption g (Block.mapOption f b) = Block.mapOption (g ∘ f) b
  | none => by simp [Block.mapOption]
  | some b => by simp [Block.mapOption, b.map_map]

theorem CaseStmt.mapList_map : (cs : List (CaseStmt π)) →
    CaseStmt.mapList g (CaseStmt.mapList f cs) = CaseStmt.mapList (g ∘ f) cs
  | [] => by simp [CaseStmt.mapList]
  | c :: cs => by simp [CaseStmt.mapList, c.map_map, CaseStmt.mapList_map cs]

theorem ClassMember.mapList_map : (ms : List (ClassMember π)) →
    ClassMember.mapList g (ClassMember.mapList f ms) = ClassMember.mapList (g ∘ f) ms
  | [] => by simp [ClassMember.mapList]
  | m :: ms => by simp [ClassMember.mapList, m.map_map, ClassMember.mapList_map ms]

theorem EnumMember.mapList_map : (ms : List (EnumMember π)) →
    EnumMember.mapList g (EnumMember.mapList f ms) = EnumMember.mapList (g ∘ f) ms
  | [] => by simp [EnumMember.mapList]
  | m :: ms => by simp [EnumMember.mapList, m.map_map, EnumMember.mapList_map ms]

end

theorem RootDecl.map_map (d : RootDecl π) : (d.map f).map g = d.map (g ∘ f) := by
  simp [RootDecl.map, Decl.map_map]

/-- Changing positions twice changes them once. -/
theorem Ast.map_map (a : Ast π) : (a.map f).map g = a.map (g ∘ f) := by
  simp [Ast.map, RootDecl.map_map]

end Map

section Nodes

variable {π ρ : Type} (f : π → ρ)

/-- A function that goes through a list item by item. -/
theorem eq_map_of_cons {α β : Type} {f : α → β} {g : List α → List β} (hnil : g [] = [])
    (hcons : ∀ a as, g (a :: as) = f a :: g as) (as : List α) : g as = as.map f := by
  induction as with
  | nil => exact hnil
  | cons a as ih => rw [hcons, ih, List.map_cons]

theorem Expr.mapList_eq : ∀ es : List (Expr π), Expr.mapList f es = es.map (·.map f) :=
  eq_map_of_cons (by rw [mapList]) fun _ _ => by rw [mapList]

theorem Entry.mapList_eq : ∀ es : List (Entry π), Entry.mapList f es = es.map (·.map f) :=
  eq_map_of_cons (by rw [mapList]) fun _ _ => by rw [mapList]

theorem Selector.mapList_eq : ∀ ss : List (Selector π), Selector.mapList f ss = ss.map (·.map f) :=
  eq_map_of_cons (by rw [mapList]) fun _ _ => by rw [mapList]

theorem Stmt.mapList_eq : ∀ ss : List (Stmt π), Stmt.mapList f ss = ss.map (·.map f) :=
  eq_map_of_cons (by rw [mapList]) fun _ _ => by rw [mapList]

theorem CaseStmt.mapList_eq : ∀ cs : List (CaseStmt π), CaseStmt.mapList f cs = cs.map (·.map f) :=
  eq_map_of_cons (by rw [mapList]) fun _ _ => by rw [mapList]

theorem ClassMember.mapList_eq :
    ∀ ms : List (ClassMember π), ClassMember.mapList f ms = ms.map (·.map f) :=
  eq_map_of_cons (by rw [mapList]) fun _ _ => by rw [mapList]

theorem EnumMember.mapList_eq :
    ∀ ms : List (EnumMember π), EnumMember.mapList f ms = ms.map (·.map f) :=
  eq_map_of_cons (by rw [mapList]) fun _ _ => by rw [mapList]

theorem Expr.mapOption_eq (o : Option (Expr π)) : Expr.mapOption f o = o.map (·.map f) := by
  cases o <;> simp [mapOption]

theorem Block.mapOption_eq (o : Option (Block π)) : Block.mapOption f o = o.map (·.map f) := by
  cases o <;> simp [mapOption]

theorem Decl.node_map (d : Decl π) : (d.map f).node = d.node.map f := by
  cases d <;> simp [Decl.map, Decl.node, Node.map]

namespace Node

/-- Positions have no part in what stands below a node. -/
theorem children_map (n : Node π) : (n.map f).children = n.children.map (map f) := by
  cases n with
  | importDecl | enumCase | literal => rfl
  | ast | varDecl | typeDecl | typeParam | parameters =>
    simp [map, children, Ast.map, VarDecl.map, TypeDecl.map, TypeParam.map, Parameters.map,
      Function.comp_def]
  | caseDecl | varBinding | returnStmt =>
    simp [map, children, CaseDecl.map, VarBinding.map, ReturnStmt.map, Option.toList_map,
      Function.comp_def]
  | rootDecl => simp [map, children, RootDecl.map, Decl.node_map]
  | enumMember n =>
    cases n
    simp [map, children, EnumMember.map, Decl.node_map]
  | classMember n =>
    cases n
    simp [map, children, ClassMember.map, Decl.node_map]
  | enumDecl n =>
    cases n
    simp [map, children, EnumDecl.map, EnumMember.mapList_eq, Function.comp_def]
  | classDecl n =>
    cases n
    simp [map, children, ClassDecl.map, ClassMember.mapList_eq, Function.comp_def]
  | initialiserDecl n =>
    cases n
    simp [map, children, InitialiserDecl.map, Function.comp_def]
  | funcDecl n =>
    cases n
    simp [map, children, FuncDecl.map, Option.toList_map, Function.comp_def]
  | stmt n => cases n <;> simp [map, children, stmtChild, Stmt.map]
  | block n =>
    cases n
    simp [map, children, Block.map, Stmt.mapList_eq, Function.comp_def]
  | ifStmt n =>
    cases n
    simp [map, children, IfStmt.map, Block.mapOption_eq, Option.toList_map, Function.comp_def]
  | forStmt n =>
    cases n
    simp [map, children, ForStmt.map]
  | switchStmt n =>
    cases n
    simp [map, children, SwitchStmt.map, CaseStmt.mapList_eq, Function.comp_def]
  | caseStmt n =>
    cases n
    simp [map, children, CaseStmt.map, Stmt.mapList_eq, Option.toList_map, Function.comp_def]
  | caseSelect n => cases n <;> simp [map, children, CaseSelect.map]
  | expr n => cases n <;> simp [map, children, Expr.map]
  | unary n => cases n <;> simp [map, children, Unary.map]
  | terminal n => cases n <;> simp [map, children, terminalChild, Terminal.map]
  | reference n =>
    cases n
    simp [map, children, Reference.map, Selector.mapList_eq, Function.comp_def]
  | selector n => cases n <;> simp [map, children, Selector.map]
  | call n =>
    cases n
    simp [map, children, Call.map, Expr.mapList_eq, Function.comp_def]
  | arrayLiteral n =>
    cases n
    simp [map, children, ArrayLiteral.map, Expr.mapList_eq, Function.comp_def]
  | dictOrSetLiteral n =>
    cases n
    simp [map, children, DictOrSetLiteral.map, Entry.mapList_eq, Function.comp_def]
  | entry n =>
    cases n
    simp [map, children, Entry.map, Expr.mapOption_eq, Option.toList_map, Function.comp_def]

end Node

end Nodes

/-- A result with all positions put to the start. -/
def Rule.erase : (r : Rule) → r.Result → r.Result
  | ast => Ast.map fun _ => 0
  | rootDecl => RootDecl.map fun _ => 0
  | importDecl => ImportDecl.map fun _ => 0
  | enumDecl => EnumDecl.map fun _ => 0
  | enumMember => EnumMember.map fun _ => 0
  | caseDecl => CaseDecl.map fun _ => 0
  | classDecl => ClassDecl.map fun _ => 0
  | classMember => ClassMember.map fun _ => 0
  | initialiserDecl => InitialiserDecl.map fun _ => 0
  | parameters => Parameters.map fun _ => 0
  | varDecl => VarDecl.map fun _ => 0
  | varBinding => VarBinding.map fun _ => 0
  | funcDecl => FuncDecl.map fun _ => 0
  | typeDecl => TypeDecl.map fun _ => 0
  | typeParam => TypeParam.map fun _ => 0
  | stmt => Stmt.map fun _ => 0
  | block => Block.map fun _ => 0
  | returnStmt => ReturnStmt.map fun _ => 0
  | ifStmt => IfStmt.map fun _ => 0
  | forStmt => ForStmt.map fun _ => 0
  | switchStmt => SwitchStmt.map fun _ => 0
  | caseStmt => CaseStmt.map fun _ => 0
  | caseSelect => CaseSelect.map fun _ => 0
  | enumCase => EnumCase.map fun _ => 0
  | expr => Expr.map fun _ => 0
  | binary _ => Expr.map fun _ => 0
  | unary => Unary.map fun _ => 0
  | terminal => Terminal.map fun _ => 0
  | literal => Literal.map fun _ => 0
  | reference => Reference.map fun _ => 0
  | selector => Selector.map fun _ => 0
  | call => Call.map fun _ => 0
  | arrayLiteral => ArrayLiteral.map fun _ => 0
  | dictOrSetLiteral => DictOrSetLiteral.map fun _ => 0
  | entry => Entry.map fun _ => 0

/-- What a phrase stands for, up to positions. Whether a separator is there is no part of it. -/
def Phrase.erase : (p : Phrase) → p.Result → p.Result
  | literal _, u => u
  | token _, x => x
  | flag _, b => b
  | separator _, _ => false
  | rule r, v => r.erase v
  | optional p, v => v.map p.erase
  | after _ p, v | between _ _ p, v => p.erase v
  | star p, vs | separated _ p, vs | listed _ _ p, vs | body p, vs => vs.map p.erase
  | typeParameters, vs => vs.map (TypeParam.map fun _ => 0)
  | modifiers, ms => ms
  | rootKind, d | classKind, d | enumKind, d => d.map fun _ => 0
  | caseHead, c => c.map (CaseSelect.map fun _ => 0)

end Syntree
