import Mathlib.Data.List.Basic
import Syntree.Proofs.Positions
import Syntree.Tree.Walk

/-!
All nodes of a tree, from a node down.

They are listed in three ways: as the walk meets them, with the way to each of them, and, without a
word on children, by going through the fields of the tree. The three lists agree.
-/

namespace Syntree

variable {π ρ : Type}

theorem Option.map_inj_left {α β : Type} {f g : α → β} {o : Option α} :
    o.map f = o.map g ↔ ∀ a, o = some a → f a = g a := by
  cases o <;> simp

theorem Decl.map_eq_of_node {f g : π → ρ} {d : Decl π} (h : d.node.map f = d.node.map g) :
    d.map f = d.map g := by
  cases d <;> simpa [Decl.map, Decl.node, Node.map] using h

namespace Node

/-- What holds of a node as soon as it holds of its children holds of every node. -/
theorem induction {P : Node π → Prop} (step : ∀ n, (∀ c ∈ n.children, P c) → P n) (n : Node π) :
    P n :=
  step n fun c hc =>
    have := sizeOf_lt_of_mem_children hc
    induction step c
termination_by sizeOf n

/-- A node and all nodes below it, each before its children. -/
def subtree (n : Node π) : List (Node π) :=
  (n.preorder 0).map (·.2)

theorem preorder_nodes (n : Node π) (depth : Nat) : (n.preorder depth).map (·.2) = n.subtree := by
  unfold subtree
  induction n using induction generalizing depth with
  | step n ih =>
    have hc : n.children.flatMap (fun c => (c.preorder (depth + 1)).map (·.2)) =
        n.children.flatMap fun c => (c.preorder (0 + 1)).map (·.2) :=
      List.flatMap_congr fun c hc => by rw [ih c hc (depth + 1), ih c hc (0 + 1)]
    rw [preorder_eq, preorder_eq 0, List.map_cons, List.map_cons, List.map_flatMap,
      List.map_flatMap, hc]

theorem subtree_eq (n : Node π) : n.subtree = n :: n.children.flatMap subtree := by
  rw [subtree, preorder_eq, List.map_cons, List.map_flatMap]
  congr 1
  exact List.flatMap_congr fun c _ => c.preorder_nodes (0 + 1)

theorem self_mem_subtree (n : Node π) : n ∈ n.subtree := by
  rw [subtree_eq]
  exact List.mem_cons_self

theorem mem_subtree {n m : Node π} : m ∈ n.subtree ↔ m = n ∨ ∃ c ∈ n.children, m ∈ c.subtree := by
  rw [subtree_eq, List.mem_cons, List.mem_flatMap]

theorem subtree_trans {n m k : Node π} (hm : m ∈ n.subtree) (hk : k ∈ m.subtree) :
    k ∈ n.subtree := by
  induction n using induction with
  | step n ih =>
    rcases mem_subtree.mp hm with rfl | ⟨c, hc, hm⟩
    · exact hk
    · exact mem_subtree.mpr (.inr ⟨c, hc, ih c hc hm⟩)

/-! Positions -/

theorem pos_map (f : π → ρ) (n : Node π) : (n.map f).pos = f n.pos := by
  cases n with
  | ast | rootDecl | importDecl | caseDecl | typeDecl | typeParam | parameters | varDecl
  | varBinding | returnStmt | enumCase | literal => rfl
  | _ n => cases n <;> rfl

theorem subtree_map (f : π → ρ) (n : Node π) : (n.map f).subtree = n.subtree.map (map f) := by
  induction n using induction with
  | step n ih =>
    rw [subtree_eq, subtree_eq n, children_map, List.map_cons, List.flatMap_map, List.map_flatMap]
    congr 1
    exact List.flatMap_congr ih

section

set_option linter.unusedSimpArgs false

-- `h` is first said of each child by itself: `map` is then only ever met at a constructor
theorem map_eq_of_children {f g : π → ρ} {n : Node π} (hpos : f n.pos = g n.pos)
    (h : ∀ c ∈ n.children, c.map f = c.map g) : n.map f = n.map g := by
  cases n with
  | rootDecl n =>
    have hd := Decl.map_eq_of_node (h n.decl.node List.mem_cons_self)
    simp_all only [map, RootDecl.map, pos]
  | enumMember n =>
    have hd := Decl.map_eq_of_node (h n.decl.node List.mem_cons_self)
    cases n
    simp_all only [map, EnumMember.map, pos]
  | classMember n =>
    have hd := Decl.map_eq_of_node (h n.decl.node List.mem_cons_self)
    cases n
    simp_all only [map, ClassMember.map, pos]
  | importDecl | enumCase | literal =>
    simp_all only [map, pos, ImportDecl.map, EnumCase.map, Literal.map]
  | ast | varDecl | typeDecl | parameters =>
    simp only [children, List.forall_mem_map, List.forall_mem_singleton] at h
    simp_all [map, pos, Ast.map, VarDecl.map, TypeDecl.map, Parameters.map]
  | typeParam | caseDecl | varBinding | returnStmt =>
    simp only [children, List.forall_mem_append, List.forall_mem_map] at h
    simp_all [map, pos, TypeParam.map, CaseDecl.map, VarBinding.map, ReturnStmt.map,
      Option.map_inj_left]
  | stmt n =>
    cases n <;> simp only [children, stmtChild, List.forall_mem_singleton] at h <;>
      simp_all [map, pos, Stmt.map, Stmt.pos]
  | terminal n =>
    cases n <;> simp only [children, terminalChild, List.forall_mem_singleton] at h <;>
      simp_all [map, pos, Terminal.map, Terminal.pos]
  | expr n =>
    cases n <;> simp only [children, List.forall_mem_cons, List.forall_mem_singleton] at h <;>
      simp_all [map, pos, Expr.map, Expr.pos]
  | unary n =>
    cases n <;> simp only [children, List.forall_mem_singleton] at h <;>
      simp_all [map, pos, Unary.map, Unary.pos]
  | selector n =>
    cases n <;> simp only [children, List.forall_mem_singleton] at h <;>
      simp_all [map, pos, Selector.map, Selector.pos]
  | caseSelect n =>
    cases n <;> simp only [children, List.forall_mem_singleton] at h <;>
      simp_all [map, pos, CaseSelect.map, CaseSelect.pos]
  | _ n =>
    cases n
    simp only [children, List.forall_mem_append, List.forall_mem_cons, List.forall_mem_map,
      List.forall_mem_singleton] at h
    simp_all [map, pos, Option.map_inj_left, EnumDecl.map, EnumMember.mapList_eq, ClassDecl.map,
      ClassMember.mapList_eq, InitialiserDecl.map, FuncDecl.map, Block.map, Stmt.mapList_eq,
      IfStmt.map, Block.mapOption_eq, ForStmt.map, SwitchStmt.map, CaseStmt.mapList_eq,
      CaseStmt.map, Reference.map, Selector.mapList_eq, Call.map, ArrayLiteral.map,
      Expr.mapList_eq, DictOrSetLiteral.map, Entry.mapList_eq, Entry.map, Expr.mapOption_eq]

end

/-- Two changes of positions that agree on those of its nodes make the same of a tree. -/
theorem map_congr {f g : π → ρ} {n : Node π} (h : ∀ m ∈ n.subtree, f m.pos = g m.pos) :
    n.map f = n.map g := by
  induction n using induction with
  | step n ih =>
    refine map_eq_of_children (h n n.self_mem_subtree) fun c hc => ih c hc fun m hm => ?_
    exact h m (mem_subtree.mpr (.inr ⟨c, hc, hm⟩))

end Node

theorem RootDecl.map_congr {f g : π → ρ} {d : RootDecl π}
    (h : ∀ n ∈ (Node.rootDecl d).subtree, f n.pos = g n.pos) : d.map f = d.map g :=
  Node.rootDecl.inj (Node.map_congr h)

namespace Node

/-! Addresses -/

/-- A node and all nodes below it, each before its children, with the indices of the children that
lead to it. -/
def addressed (n : Node π) : List (List Nat × Node π) :=
  ([], n) :: n.children.attach.zipIdx.flatMap fun (⟨c, _⟩, k) =>
    c.addressed.map fun e => (k :: e.1, e.2)
termination_by sizeOf n
decreasing_by exact sizeOf_lt_of_mem_children ‹_›

/-- The nodes of some trees that are children of one node, the first being child `k`. -/
def addressedFrom (k : Nat) : List (Node π) → List (List Nat × Node π)
  | [] => []
  | c :: cs => c.addressed.map (fun e => (k :: e.1, e.2)) ++ addressedFrom (k + 1) cs

theorem addressed_eq (n : Node π) : n.addressed = ([], n) :: addressedFrom 0 n.children := by
  have inSubtype (p : Node π → Prop) (cs : List { c // p c }) (k : Nat) :
      (cs.zipIdx k).flatMap (fun x => x.1.1.addressed.map fun e => (x.2 :: e.1, e.2)) =
        addressedFrom k (cs.map (·.1)) := by
    induction cs generalizing k with
    | nil => rfl
    | cons c cs ih => rw [List.zipIdx_cons, List.flatMap_cons, ih, List.map_cons, addressedFrom]
  rw [addressed, inSubtype, List.attach_map_subtype_val]

theorem mem_addressedFrom {cs : List (Node π)} {k : Nat} {e : List Nat × Node π} :
    e ∈ addressedFrom k cs ↔
      ∃ i c e', cs[i]? = some c ∧ e' ∈ c.addressed ∧ e = ((k + i) :: e'.1, e'.2) := by
  induction cs generalizing k with
  | nil => simp [addressedFrom]
  | cons c cs ih =>
    rw [addressedFrom, List.mem_append, List.mem_map, ih]
    constructor
    · rintro (⟨e', he, rfl⟩ | ⟨i, c', e', hc, he, rfl⟩)
      · exact ⟨0, c, e', rfl, he, rfl⟩
      · exact ⟨i + 1, c', e', hc, he, by rw [Nat.add_right_comm, Nat.add_assoc]⟩
    · rintro ⟨i, c', e', hc, he, rfl⟩
      cases i with
      | zero =>
        cases hc
        exact .inl ⟨e', he, rfl⟩
      | succ i => exact .inr ⟨i, c', e', hc, he, by rw [Nat.add_right_comm, Nat.add_assoc]⟩

/-- What is listed with an address is what stands there. -/
theorem mem_addressed {n : Node π} {address : List Nat} {m : Node π} :
    (address, m) ∈ n.addressed ↔ n.descend? address = some m := by
  induction n using induction generalizing address with
  | step n ih =>
    rw [addressed_eq, List.mem_cons, mem_addressedFrom]
    cases address with
    | nil => simp [descend?, eq_comm]
    | cons k rest =>
      simp only [Prod.mk.injEq, reduceCtorEq, List.cons.injEq, false_and, false_or, Nat.zero_add,
        descend?, Option.bind_eq_some_iff]
      constructor
      · rintro ⟨_, c, e', hc, he, ⟨rfl, rfl⟩, rfl⟩
        exact ⟨c, hc, (ih c (List.mem_of_getElem? hc)).mp he⟩
      · rintro ⟨c, hc, hd⟩
        exact ⟨k, c, (rest, m), hc, (ih c (List.mem_of_getElem? hc)).mpr hd, ⟨rfl, rfl⟩, rfl⟩

/-- No address is listed twice. -/
theorem addressed_nodup (n : Node π) : (n.addressed.map (·.1)).Nodup := by
  have inChildren (cs : List (Node π)) (hc : ∀ c ∈ cs, (c.addressed.map (·.1)).Nodup) (k : Nat) :
      ((addressedFrom k cs).map (·.1)).Nodup := by
    induction cs generalizing k with
    | nil => exact List.nodup_nil
    | cons c cs ih =>
      have hhead : ((c.addressed.map fun e => (k :: e.1, e.2)).map (·.1)).Nodup := by
        have h := List.pairwise_map.mp (hc c List.mem_cons_self)
        rw [List.Nodup, List.pairwise_map, List.pairwise_map]
        exact h.imp fun hne heq => hne (List.cons.inj heq).2
      rw [addressedFrom, List.map_append, List.nodup_append]
      refine ⟨hhead, ih (fun c h => hc c (List.mem_cons_of_mem _ h)) (k + 1), ?_⟩
      -- the addresses behind the first child start with another index
      simp only [List.map_map, List.mem_map, mem_addressedFrom]
      rintro _ ⟨e, -, rfl⟩ _ ⟨_, ⟨i, c', e', -, -, rfl⟩, rfl⟩ heq
      have hi := (List.cons.inj heq).1
      omega
  induction n using induction with
  | step n ih =>
    rw [addressed_eq, List.map_cons, List.nodup_cons]
    refine ⟨?_, inChildren n.children ih 0⟩
    simp [mem_addressedFrom]

/-- Addresses are as long as the nodes are deep. -/
theorem addressed_preorder (n : Node π) (depth : Nat) :
    n.addressed.map (fun e => (depth + e.1.length, e.2)) = n.preorder depth := by
  have inChildren (cs : List (Node π)) (hc : ∀ c ∈ cs, ∀ depth,
      c.addressed.map (fun e => (depth + e.1.length, e.2)) = c.preorder depth) (k depth : Nat) :
      (addressedFrom k cs).map (fun e => (depth + e.1.length, e.2)) =
        cs.flatMap (·.preorder (depth + 1)) := by
    induction cs generalizing k with
    | nil => rfl
    | cons c cs ih =>
      rw [addressedFrom, List.map_append, List.flatMap_cons,
        ih (fun c h => hc c (List.mem_cons_of_mem _ h)), ← hc c List.mem_cons_self, List.map_map]
      congr 2
      funext e
      exact congrArg (·, e.2) (Nat.add_right_comm depth e.1.length 1)
  induction n using induction generalizing depth with
  | step n ih =>
    rw [addressed_eq, List.map_cons, inChildren n.children ih, preorder_eq]
    rfl

end Node

/-! Fields -/

section Held

def Literal.held (l : Literal π) : List (Node π) := [.literal l]

mutual

def Expr.held : Expr π → List (Node π)
  | .binary pos left op right => .expr (.binary pos left op right) :: (left.held ++ right.held)
  | .unary pos operand => .expr (.unary pos operand) :: operand.held

def Unary.held : Unary π → List (Node π)
  | .prefixed pos op operand => .unary (.prefixed pos op operand) :: operand.held
  | .terminal pos operand => .unary (.terminal pos operand) :: operand.held

def Terminal.held : Terminal π → List (Node π)
  | .array pos array => .terminal (.array pos array) :: array.held
  | .dictOrSet pos entries => .terminal (.dictOrSet pos entries) :: entries.held
  | .paren pos inner => .terminal (.paren pos inner) :: inner.held
  | .literal pos literal => .terminal (.literal pos literal) :: literal.held
  | .reference pos reference => .terminal (.reference pos reference) :: reference.held

def ArrayLiteral.held : ArrayLiteral π → List (Node π)
  | ⟨pos, elements⟩ => .arrayLiteral ⟨pos, elements⟩ :: Expr.heldList elements

def DictOrSetLiteral.held : DictOrSetLiteral π → List (Node π)
  | ⟨pos, entries⟩ => .dictOrSetLiteral ⟨pos, entries⟩ :: Entry.heldList entries

def Entry.held : Entry π → List (Node π)
  | ⟨pos, key, value⟩ => .entry ⟨pos, key, value⟩ :: (key.held ++ Expr.heldOption value)

def Reference.held : Reference π → List (Node π)
  | ⟨pos, name, next⟩ => .reference ⟨pos, name, next⟩ :: Selector.heldList next

def Selector.held : Selector π → List (Node π)
  | .member pos name => [.selector (.member pos name)]
  | .index pos index => .selector (.index pos index) :: index.held
  | .call pos call => .selector (.call pos call) :: call.held

def Call.held : Call π → List (Node π)
  | ⟨pos, arguments⟩ => .call ⟨pos, arguments⟩ :: Expr.heldList arguments

def Expr.heldList : List (Expr π) → List (Node π)
  | [] => []
  | e :: es => e.held ++ Expr.heldList es

def Expr.heldOption : Option (Expr π) → List (Node π)
  | none => []
  | some e => e.held

def Entry.heldList : List (Entry π) → List (Node π)
  | [] => []
  | e :: es => e.held ++ Entry.heldList es

def Selector.heldList : List (Selector π) → List (Node π)
  | [] => []
  | s :: ss => s.held ++ Selector.heldList ss

end

def TypeParam.held (t : TypeParam π) : List (Node π) :=
  .typeParam t :: t.constraints.flatMap Reference.held

def TypeDecl.held (t : TypeDecl π) : List (Node π) :=
  .typeDecl t :: t.parameters.flatMap TypeParam.held

def ImportDecl.held (d : ImportDecl π) : List (Node π) := [.importDecl d]

def CaseDecl.held (d : CaseDecl π) : List (Node π) :=
  .caseDecl d :: d.payload.toList.flatMap TypeDecl.held

def Parameters.held (p : Parameters π) : List (Node π) :=
  .parameters p :: p.type.held

def VarBinding.held (v : VarBinding π) : List (Node π) :=
  .varBinding v :: (v.type.toList.flatMap Reference.held ++ v.value.toList.flatMap Expr.held)

def VarDecl.held (d : VarDecl π) : List (Node π) :=
  .varDecl d :: d.vars.flatMap VarBinding.held

def ReturnStmt.held (s : ReturnStmt π) : List (Node π) :=
  .returnStmt s :: s.value.toList.flatMap Expr.held

def EnumCase.held (c : EnumCase π) : List (Node π) := [.enumCase c]

def CaseSelect.held : CaseSelect π → List (Node π)
  | .enumCase pos pattern => .caseSelect (.enumCase pos pattern) :: pattern.held
  | .expr pos value => .caseSelect (.expr pos value) :: value.held

mutual

def Stmt.held : Stmt π → List (Node π)
  | .ret pos stmt => .stmt (.ret pos stmt) :: stmt.held
  | .cond pos stmt => .stmt (.cond pos stmt) :: stmt.held
  | .loop pos stmt => .stmt (.loop pos stmt) :: stmt.held
  | .switch pos stmt => .stmt (.switch pos stmt) :: stmt.held
  | .block pos block => .stmt (.block pos block) :: block.held
  | .varDecl pos decl => .stmt (.varDecl pos decl) :: decl.held
  | .funcDecl pos decl => .stmt (.funcDecl pos decl) :: decl.held
  | .classDecl pos decl => .stmt (.classDecl pos decl) :: decl.held
  | .enumDecl pos decl => .stmt (.enumDecl pos decl) :: decl.held
  | .expression pos expr => .stmt (.expression pos expr) :: expr.held

def Block.held : Block π → List (Node π)
  | ⟨pos, statements⟩ => .block ⟨pos, statements⟩ :: Stmt.heldList statements

def IfStmt.held : IfStmt π → List (Node π)
  | ⟨pos, condition, main, otherwise⟩ =>
    .ifStmt ⟨pos, condition, main, otherwise⟩ ::
      (condition.held ++ main.held ++ Block.heldOption otherwise)

def ForStmt.held : ForStmt π → List (Node π)
  | ⟨pos, target, source, body⟩ =>
    .forStmt ⟨pos, target, source, body⟩ :: (target.held ++ source.held ++ body.held)

def SwitchStmt.held : SwitchStmt π → List (Node π)
  | ⟨pos, target, cases⟩ =>
    .switchStmt ⟨pos, target, cases⟩ :: (target.held ++ CaseStmt.heldList cases)

def CaseStmt.held : CaseStmt π → List (Node π)
  | ⟨pos, selector, body⟩ =>
    .caseStmt ⟨pos, selector, body⟩ ::
      (selector.toList.flatMap CaseSelect.held ++ Stmt.heldList body)

def FuncDecl.held : FuncDecl π → List (Node π)
  | ⟨pos, name, parameters, throws, result, body⟩ =>
    .funcDecl ⟨pos, name, parameters, throws, result, body⟩ ::
      (parameters.flatMap Parameters.held ++ result.toList.flatMap Reference.held ++ body.held)

def InitialiserDecl.held : InitialiserDecl π → List (Node π)
  | ⟨pos, parameters, throws, body⟩ =>
    .initialiserDecl ⟨pos, parameters, throws, body⟩ ::
      (parameters.flatMap Parameters.held ++ body.held)

def ClassDecl.held : ClassDecl π → List (Node π)
  | ⟨pos, type, members⟩ =>
    .classDecl ⟨pos, type, members⟩ :: (type.held ++ ClassMember.heldList members)

def ClassMember.held : ClassMember π → List (Node π)
  | ⟨pos, modifiers, decl⟩ => .classMember ⟨pos, modifiers, decl⟩ :: decl.held

def EnumDecl.held : EnumDecl π → List (Node π)
  | ⟨pos, type, members⟩ =>
    .enumDecl ⟨pos, type, members⟩ :: (type.held ++ EnumMember.heldList members)

def EnumMember.held : EnumMember π → List (Node π)
  | ⟨pos, modifiers, decl⟩ => .enumMember ⟨pos, modifiers, decl⟩ :: decl.held

def Decl.held : Decl π → List (Node π)
  | .classDecl decl => decl.held
  | .importDecl decl => decl.held
  | .enumDecl decl => decl.held
  | .varDecl decl => decl.held
  | .funcDecl decl => decl.held
  | .caseDecl decl => decl.held
  | .initialiser decl => decl.held

def Stmt.heldList : List (Stmt π) → List (Node π)
  | [] => []
  | s :: ss => s.held ++ Stmt.heldList ss

def Block.heldOption : Option (Block π) → List (Node π)
  | none => []
  | some b => b.held

def CaseStmt.heldList : List (CaseStmt π) → List (Node π)
  | [] => []
  | c :: cs => c.held ++ CaseStmt.heldList cs

def ClassMember.heldList : List (ClassMember π) → List (Node π)
  | [] => []
  | m :: ms => m.held ++ ClassMember.heldList ms

def EnumMember.heldList : List (EnumMember π) → List (Node π)
  | [] => []
  | m :: ms => m.held ++ EnumMember.heldList ms

end

def RootDecl.held (d : RootDecl π) : List (Node π) := .rootDecl d :: d.decl.held

def Ast.held (a : Ast π) : List (Node π) := .ast a :: a.declarations.flatMap RootDecl.held

/-- A node and all nodes that its fields hold, directly or in turn, field by field. -/
def Node.held : Node π → List (Node π)
  | .ast n => n.held
  | .rootDecl n => n.held
  | .importDecl n => n.held
  | .enumDecl n => n.held
  | .enumMember n => n.held
  | .caseDecl n => n.held
  | .classDecl n => n.held
  | .classMember n => n.held
  | .initialiserDecl n => n.held
  | .typeDecl n => n.held
  | .typeParam n => n.held
  | .parameters n => n.held
  | .varDecl n => n.held
  | .varBinding n => n.held
  | .funcDecl n => n.held
  | .stmt n => n.held
  | .block n => n.held
  | .returnStmt n => n.held
  | .ifStmt n => n.held
  | .forStmt n => n.held
  | .switchStmt n => n.held
  | .caseStmt n => n.held
  | .caseSelect n => n.held
  | .enumCase n => n.held
  | .expr n => n.held
  | .unary n => n.held
  | .terminal n => n.held
  | .literal n => n.held
  | .reference n => n.held
  | .selector n => n.held
  | .call n => n.held
  | .arrayLiteral n => n.held
  | .dictOrSetLiteral n => n.held
  | .entry n => n.held

theorem eq_flatMap_of_cons {α β : Type} {f : α → List β} {g : List α → List β} (hnil : g [] = [])
    (hcons : ∀ a as, g (a :: as) = f a ++ g as) (as : List α) : g as = as.flatMap f := by
  induction as with
  | nil => exact hnil
  | cons a as ih => rw [hcons, ih, List.flatMap_cons]

theorem Expr.heldList_eq : ∀ es : List (Expr π), Expr.heldList es = es.flatMap Expr.held :=
  eq_flatMap_of_cons (by rw [heldList]) fun _ _ => by rw [heldList]

theorem Entry.heldList_eq : ∀ es : List (Entry π), Entry.heldList es = es.flatMap Entry.held :=
  eq_flatMap_of_cons (by rw [heldList]) fun _ _ => by rw [heldList]

theorem Selector.heldList_eq :
    ∀ ss : List (Selector π), Selector.heldList ss = ss.flatMap Selector.held :=
  eq_flatMap_of_cons (by rw [heldList]) fun _ _ => by rw [heldList]

theorem Stmt.heldList_eq : ∀ ss : List (Stmt π), Stmt.heldList ss = ss.flatMap Stmt.held :=
  eq_flatMap_of_cons (by rw [heldList]) fun _ _ => by rw [heldList]

theorem CaseStmt.heldList_eq :
    ∀ cs : List (CaseStmt π), CaseStmt.heldList cs = cs.flatMap CaseStmt.held :=
  eq_flatMap_of_cons (by rw [heldList]) fun _ _ => by rw [heldList]

theorem ClassMember.heldList_eq :
    ∀ ms : List (ClassMember π), ClassMember.heldList ms = ms.flatMap ClassMember.held :=
  eq_flatMap_of_cons (by rw [heldList]) fun _ _ => by rw [heldList]

theorem EnumMember.heldList_eq :
    ∀ ms : List (EnumMember π), EnumMember.heldList ms = ms.flatMap EnumMember.held :=
  eq_flatMap_of_cons (by rw [heldList]) fun _ _ => by rw [heldList]

theorem Expr.heldOption_eq (o : Option (Expr π)) :
    Expr.heldOption o = o.toList.flatMap Expr.held := by
  cases o <;> simp [heldOption]

theorem Block.heldOption_eq (o : Option (Block π)) :
    Block.heldOption o = o.toList.flatMap Block.held := by
  cases o <;> simp [heldOption]

theorem Decl.held_eq (d : Decl π) : d.held = d.node.held := by
  cases d <;> simp [Decl.held, Decl.node, Node.held]

/-- What the fields of a node hold is what its children hold. -/
theorem Node.held_eq (n : Node π) : n.held = n :: n.children.flatMap held := by
  cases n with
  | importDecl | enumCase | literal => rfl
  | rootDecl => exact congrArg _ ((Decl.held_eq _).trans (List.append_nil _).symm)
  | ast => simp [Node.held, children, Ast.held, List.flatMap_map]
  | caseDecl => simp [Node.held, children, CaseDecl.held, List.flatMap_map]
  | typeDecl => simp [Node.held, children, TypeDecl.held, List.flatMap_map]
  | varDecl => simp [Node.held, children, VarDecl.held, List.flatMap_map]
  | typeParam | parameters | varBinding | returnStmt =>
    simp [Node.held, children, TypeParam.held, Parameters.held, VarBinding.held, ReturnStmt.held,
      List.flatMap_map]
  | enumMember n | classMember n =>
    cases n
    simp [Node.held, children, EnumMember.held, ClassMember.held, Decl.held_eq]
  | enumDecl n | classDecl n | initialiserDecl n | funcDecl n =>
    cases n
    simp [Node.held, children, EnumDecl.held, EnumMember.heldList_eq, ClassDecl.held,
      ClassMember.heldList_eq, InitialiserDecl.held, FuncDecl.held, List.flatMap_map]
  | stmt n => cases n <;> simp [Node.held, children, stmtChild, Stmt.held]
  | block n | ifStmt n | forStmt n | switchStmt n | caseStmt n =>
    cases n
    simp [Node.held, children, Block.held, IfStmt.held, Block.heldOption_eq, ForStmt.held,
      SwitchStmt.held, CaseStmt.heldList_eq, CaseStmt.held, Stmt.heldList_eq, List.flatMap_map]
  | caseSelect n => cases n <;> simp [Node.held, children, CaseSelect.held]
  | expr n => cases n <;> simp [Node.held, children, Expr.held]
  | unary n => cases n <;> simp [Node.held, children, Unary.held]
  | terminal n => cases n <;> simp [Node.held, children, terminalChild, Terminal.held]
  | selector n => cases n <;> simp [Node.held, children, Selector.held]
  | reference n | call n | arrayLiteral n | dictOrSetLiteral n | entry n =>
    cases n
    simp [Node.held, children, Reference.held, Selector.heldList_eq, Call.held, ArrayLiteral.held,
      Expr.heldList_eq, DictOrSetLiteral.held, Entry.heldList_eq, Entry.held, Expr.heldOption_eq,
      List.flatMap_map]

/-- The nodes that the fields of a tree hold are those that a walk meets, in the same order. -/
theorem Node.held_eq_subtree (n : Node π) : n.held = n.subtree := by
  induction n using induction with
  | step n ih => rw [held_eq, subtree_eq, List.flatMap_congr ih]

end Held

end Syntree
