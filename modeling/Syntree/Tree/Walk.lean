import Syntree.Tree.Node

/-!
Walking a tree from a node down.

`walk` hands every node to a callback, which decides whether to descend and what to make of the
result; `visit` is the walk of a visitor that only says to go on, to leave a subtree out, or to
stop.
-/

namespace Syntree

variable {π σ ε : Type}

section Size

theorem sizeOf_lt_of_mem_toList {α : Type} [SizeOf α] {x : α} {o : Option α} (h : x ∈ o.toList) :
    sizeOf x < sizeOf o := by
  obtain rfl := Option.mem_toList.mp h
  simp

theorem Decl.sizeOf_node (d : Decl π) : sizeOf d.node = sizeOf d := by
  cases d <;> rfl

theorem Node.sizeOf_stmtChild_le (s : Stmt π) : sizeOf (stmtChild s) ≤ sizeOf s := by
  cases s <;> simp [stmtChild]

theorem Node.sizeOf_terminalChild_le (t : Terminal π) : sizeOf (terminalChild t) ≤ sizeOf t := by
  cases t <;> simp [terminalChild]

/-- A child is smaller than its parent, so every walk ends. -/
theorem Node.sizeOf_lt_of_mem_children {child n : Node π} (h : child ∈ n.children) :
    sizeOf child < sizeOf n := by
  revert child
  have inList {α : Type} [SizeOf α] {x : α} {xs : List α} (h : x ∈ xs) : sizeOf x < sizeOf xs :=
    List.sizeOf_lt_of_mem h
  have inOption {α : Type} [SizeOf α] {x : α} {o : Option α} (h : x ∈ o.toList) :
      sizeOf x < sizeOf o := sizeOf_lt_of_mem_toList h
  cases n with
  | stmt s =>
    have := sizeOf_stmtChild_le s
    simp [children]
    omega
  | terminal t =>
    have := sizeOf_terminalChild_le t
    simp [children]
    omega
  | rootDecl n | enumMember n | classMember n =>
    cases n
    simp [children, Decl.sizeOf_node]
    omega
  | _ n =>
    cases n <;>
    simp only [children, List.forall_mem_append, List.forall_mem_cons, List.forall_mem_map,
      List.not_mem_nil, false_implies, implies_true, and_true, Node.ast.sizeOf_spec] <;>
    grind

end Size

/-- Puts a node and all nodes below it, each before its children, in front of `rest`. -/
def Node.listBefore (depth : Nat) (n : Node π) (rest : List (Nat × Node π)) :
    List (Nat × Node π) :=
  (depth, n) :: n.children.attach.foldr
    (fun ⟨child, _⟩ rest => child.listBefore (depth + 1) rest) rest
termination_by sizeOf n
decreasing_by exact sizeOf_lt_of_mem_children ‹_›

/-- A node and all nodes below it, each before its children, with their depths. -/
def Node.preorder (depth : Nat) (n : Node π) : List (Nat × Node π) :=
  n.listBefore depth []

theorem Node.listBefore_eq (depth : Nat) (n : Node π) (rest : List (Nat × Node π)) :
    n.listBefore depth rest =
      (depth, n) ::
        n.children.foldr (fun child rest => child.listBefore (depth + 1) rest) rest := by
  rw [listBefore]
  simp

/-- What is put in front does not depend on what it is put in front of. -/
theorem Node.listBefore_append (depth : Nat) (n : Node π) (rest : List (Nat × Node π)) :
    n.listBefore depth rest = n.preorder depth ++ rest := by
  unfold preorder
  rw [listBefore_eq, listBefore_eq depth n []]
  have inChildren (children : List (Node π)) (hc : ∀ child ∈ children, child ∈ n.children) :
      children.foldr (fun child rest => child.listBefore (depth + 1) rest) rest =
        children.foldr (fun child rest => child.listBefore (depth + 1) rest) [] ++ rest := by
    induction children with
    | nil => rfl
    | cons child children ih =>
      have := Node.sizeOf_lt_of_mem_children (hc child (by simp))
      have ih := ih fun c h => hc c (List.mem_cons_of_mem _ h)
      simp only [List.foldr_cons, ih]
      rw [listBefore_append (depth + 1) child,
        listBefore_append (depth + 1) child (List.foldr _ _ _), List.append_assoc]
  simp [inChildren n.children fun _ h => h]
termination_by sizeOf n

/-- A node comes before its children, and those are listed one after the other. -/
theorem Node.preorder_eq (depth : Nat) (n : Node π) :
    n.preorder depth = (depth, n) :: n.children.flatMap (·.preorder (depth + 1)) := by
  rw [preorder, listBefore_eq]
  congr 1
  induction n.children with
  | nil => rfl
  | cons child children ih => rw [List.foldr_cons, ih, listBefore_append, List.flatMap_cons]

/-- The node reached by following child indices. -/
def Node.descend? : Node π → List Nat → Option (Node π)
  | n, [] => some n
  | n, index :: rest => n.children[index]?.bind (·.descend? rest)

/-- What a callback does with a node: it ends with a result of its own, or hands a result to the
continuation, which descends only if that is no error, and then ends as it likes. -/
inductive Step (σ ε : Type) where
  | finish (result : Except ε Unit)
  | descend (given : Except ε Unit) (resume : Except ε Unit → σ → Except ε Unit × σ)

/-- Goes through a list until the first error. -/
def inTurn {α : Type} (f : α → σ → Except ε Unit × σ) : List α → σ → Except ε Unit × σ
  | [], s => (.ok (), s)
  | a :: as, s =>
    match f a s with
    | (.ok _, s) => inTurn f as s
    | (.error e, s) => (.error e, s)

theorem inTurn_attach {α : Type} (f : α → σ → Except ε Unit × σ) (xs : List α) (s : σ) :
    inTurn (fun x => f x.1) xs.attach s = inTurn f xs s := by
  have inSubtype (p : α → Prop) (ys : List { x // p x }) (s : σ) :
      inTurn (fun x => f x.1) ys s = inTurn f (ys.map (·.1)) s := by
    induction ys generalizing s with
    | nil => rfl
    | cons y ys ih => simp only [inTurn, List.map_cons, ih]
  rw [inSubtype, List.attach_map_subtype_val]

/-- Hands a node to the callback, and its children after it if the callback descends. The children
are walked in turn up to the first that ends with an error. -/
def walk (callback : Node π → σ → Step σ ε × σ) (n : Node π) (s : σ) : Except ε Unit × σ :=
  match callback n s with
  | (.finish result, s) => (result, s)
  | (.descend (.error e) resume, s) => resume (.error e) s
  | (.descend (.ok _) resume, s) =>
    let (result, s) := inTurn (fun ⟨child, _⟩ s => walk callback child s) n.children.attach s
    resume result s
termination_by sizeOf n
decreasing_by exact Node.sizeOf_lt_of_mem_children ‹_›

/-- The children of a node are walked in turn. -/
theorem walk_eq (callback : Node π → σ → Step σ ε × σ) (n : Node π) (s : σ) :
    walk callback n s =
      match callback n s with
      | (.finish result, s) => (result, s)
      | (.descend (.error e) resume, s) => resume (.error e) s
      | (.descend (.ok _) resume, s) =>
        let (result, s) := inTurn (walk callback) n.children s
        resume result s := by
  rw [walk]
  simp only [← inTurn_attach (walk callback)]

/-- The answer of a visitor to a node. -/
inductive Verdict (ε : Type) where
  | proceed
  /-- Leaves out what is below the node. -/
  | prune
  /-- Ends the whole walk. -/
  | abort (error : ε)

/-- The walk in which every result is handed on as it is. -/
def visit (visitor : Node π → σ → Verdict ε × σ) (n : Node π) (s : σ) : Except ε Unit × σ :=
  walk (fun n s =>
    match visitor n s with
    | (.proceed, s) => (.descend (.ok ()) Prod.mk, s)
    | (.prune, s) => (.finish (.ok ()), s)
    | (.abort e, s) => (.descend (.error e) Prod.mk, s)) n s

/-- The visitor that lets every node pass. -/
def accept : Node π → σ → Verdict ε × σ := fun _ s => (.proceed, s)

end Syntree
