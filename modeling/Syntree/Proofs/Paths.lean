import Syntree.Proofs.Positions
import Syntree.Tree.Walk

/-!
Paths through a tree, and how many constructs are opened along them.

What counts is an expression that is not an operand of an operator, the operand of a prefix
operator, the statements of a block, and the members of a class or an enum.
-/

namespace Syntree

namespace Node

variable {π : Type}

/-- The constructs that are opened on the way from a node to a child of it. -/
def opens (n : Node π) : Node π → Nat
  | expr _ => match n with
    | expr _ => 0
    | _ => 1
  | unary _ => match n with
    | unary _ => 1
    | _ => 0
  | stmt _ => match n with
    | block _ => 1
    | _ => 0
  | classMember _ | enumMember _ => 1
  | _ => 0

/-- A list in braces is opened even if there is nothing in it. -/
def opensList : Node π → Nat
  | block _ | classDecl _ | enumDecl _ => 1
  | _ => 0

/-- From a node down to one below it, each with its child. -/
inductive Path : Node π → List (Node π) → Prop where
  | here (n : Node π) : Path n [n]
  | down {n m : Node π} {ns : List (Node π)} (child : m ∈ n.children) (rest : Path m ns) :
      Path n (n :: ns)

/-- The constructs that are opened along a path. -/
def opened : List (Node π) → Nat
  | [] => 0
  | [n] => n.opensList
  | n :: m :: ns => n.opens m + opened (m :: ns)

theorem Path.eq_cons {n : Node π} {ns : List (Node π)} (h : n.Path ns) : ∃ ns', ns = n :: ns' := by
  cases h with
  | here => exact ⟨[], rfl⟩
  | down => exact ⟨_, rfl⟩

theorem opened_down {n m : Node π} {ns : List (Node π)} (h : m.Path ns) :
    opened (n :: ns) = n.opens m + opened ns := by
  obtain ⟨ns', rfl⟩ := h.eq_cons
  rfl

/-- What stands on a path stands in the tree. -/
theorem Path.mem_preorder {n m : Node π} {ns : List (Node π)} (h : n.Path ns) (hm : m ∈ ns)
    (d : Nat) : ∃ d', (d', m) ∈ n.preorder d := by
  induction h generalizing d with
  | here n =>
    obtain rfl := List.mem_singleton.mp hm
    rw [preorder_eq]
    exact ⟨d, List.mem_cons_self⟩
  | down child _ ih =>
    rw [preorder_eq]
    rcases List.mem_cons.mp hm with rfl | hm
    · exact ⟨d, List.mem_cons_self⟩
    · obtain ⟨d', hd⟩ := ih hm (d + 1)
      exact ⟨d', List.mem_cons_of_mem _ (List.mem_flatMap.mpr ⟨_, child, hd⟩)⟩

theorem opens_le_one (n m : Node π) : n.opens m ≤ 1 := by
  unfold opens
  repeat' split
  all_goals decide

theorem opensList_le_one (n : Node π) : n.opensList ≤ 1 := by
  unfold opensList
  split <;> decide

theorem opened_le_length (ns : List (Node π)) : opened ns ≤ ns.length := by
  fun_induction opened ns with
  | case1 => exact Nat.le_refl 0
  | case2 n => exact n.opensList_le_one
  | case3 n m ns ih =>
    have hn := opens_le_one n m
    simp only [List.length_cons] at ih ⊢
    omega

theorem Path.length_le {n : Node π} {ns : List (Node π)} (h : n.Path ns) :
    ns.length ≤ sizeOf n := by
  induction h with
  | here n => cases n <;> simp
  | down child _ ih =>
    have hm := sizeOf_lt_of_mem_children child
    simp only [List.length_cons]
    omega

/-- Whether no path down from a node opens more than `room` constructs, and all nodes on it are as
`Q` says. -/
def Fits (Q : Node π → Prop) (room : Nat) (n : Node π) : Prop :=
  ∀ ns, n.Path ns → opened ns ≤ room ∧ ∀ m ∈ ns, Q m

variable {Q : Node π → Prop} {room : Nat} {n m : Node π}

theorem Fits.own (h : n.Fits Q room) : n.opensList ≤ room ∧ Q n := by
  obtain ⟨ho, hq⟩ := h [n] (.here n)
  exact ⟨ho, hq n (by simp)⟩

theorem Fits.child (h : n.Fits Q room) (hm : m ∈ n.children) :
    n.opens m ≤ room ∧ m.Fits Q (room - n.opens m) := by
  have hd (ns : List (Node π)) (hp : m.Path ns) :
      n.opens m + opened ns ≤ room ∧ ∀ m ∈ n :: ns, Q m := by
    rw [← opened_down hp]
    exact h _ (.down hm hp)
  constructor
  · exact Nat.le_trans (Nat.le_add_right _ _) (hd [m] (.here m)).1
  · intro ns hp
    obtain ⟨ho, hq⟩ := hd ns hp
    exact ⟨by omega, fun m' hm' => hq m' (by simp [hm'])⟩

theorem fits_of_children (ho : n.opensList ≤ room) (hq : Q n)
    (hc : ∀ m ∈ n.children, n.opens m ≤ room ∧ m.Fits Q (room - n.opens m)) : n.Fits Q room := by
  intro ns h
  cases h with
  | here => exact ⟨ho, by simpa using hq⟩
  | down child rest =>
    obtain ⟨hle, hm⟩ := hc _ child
    obtain ⟨ho', hq'⟩ := hm _ rest
    rw [opened_down rest]
    exact ⟨by omega, by simpa using ⟨hq, hq'⟩⟩

/-- Every tree fits somewhere. -/
theorem exists_fits (hq : ∀ ns, n.Path ns → ∀ m ∈ ns, Q m) : ∃ room, n.Fits Q room :=
  ⟨sizeOf n, fun ns h => ⟨Nat.le_trans (opened_le_length ns) h.length_le, hq ns h⟩⟩

end Node

/-! Positions do not matter -/

section

variable {π ρ : Type} (f : π → ρ)

namespace Node

/-- A path through a tree whose positions were changed is a path through the tree as it was. -/
theorem Path.of_map {n : Node π} {ns : List (Node ρ)} (h : (n.map f).Path ns) :
    ∃ ns', n.Path ns' ∧ ns = ns'.map (map f) := by
  generalize hm : n.map f = m at h
  induction h generalizing n with
  | here m =>
    subst hm
    exact ⟨[n], .here n, rfl⟩
  | down child _ ih =>
    subst hm
    rw [children_map] at child
    obtain ⟨c, hc, rfl⟩ := List.mem_map.mp child
    obtain ⟨ns', hp, rfl⟩ := ih rfl
    exact ⟨n :: ns', .down hc hp, rfl⟩

theorem opens_map (n m : Node π) : (n.map f).opens (m.map f) = n.opens m := by
  cases m with
  | expr | unary | stmt => cases n <;> rfl
  | _ => rfl

theorem opened_map (ns : List (Node π)) : opened (ns.map (map f)) = opened ns := by
  fun_induction opened ns with
  | case1 => rfl
  | case2 n => cases n <;> rfl
  | case3 n m ns ih =>
    rw [List.map_cons] at ih
    simp only [List.map_cons, opened, opens_map, ih]

/-- A statement stands in a block or behind a case. -/
theorem parent_of_stmt {n : Node π} {s : Stmt π} (h : stmt s ∈ n.children) :
    n.opens (stmt s) = 1 ∨ n.kind = .caseStmt := by
  cases n with
  | block => exact .inl rfl
  | caseStmt => exact .inr rfl
  | stmt s' => cases s' <;> simp [children, stmtChild] at h
  | terminal t => cases t <;> simp [children, terminalChild] at h
  | rootDecl d | enumMember d | classMember d =>
    obtain ⟨_, _, d⟩ := d
    cases d <;> simp [children, Decl.node] at h
  | caseSelect n | expr n | unary n | selector n => cases n <;> simp [children] at h
  | _ => simp [children] at h

/-- Below the first node, every statement on a path is opened or stands behind a case. -/
theorem Path.stmts_le {n : Node π} {ns : List (Node π)} (h : n.Path ns) :
    (ns.map kind).tail.count .stmt ≤ opened ns + (ns.map kind).count .caseStmt := by
  induction h with
  | here => exact Nat.zero_le _
  | @down n m ns child rest ih =>
    rw [opened_down rest]
    obtain ⟨ns, rfl⟩ := rest.eq_cons
    have hm : m.kind = .stmt → n.opens m = 1 ∨ n.kind = .caseStmt := by
      intro hk
      cases m with
      | stmt s => exact parent_of_stmt child
      | _ => cases hk
    simp only [List.map_cons, List.tail_cons, List.count_cons, beq_iff_eq] at ih ⊢
    split
    · next hk =>
      rcases hm hk with ho | hc
      · rw [ho]
        omega
      · rw [if_pos hc]
        omega
    · omega

/-- Whether nodes of these kinds stand on a path. -/
def follows : List NodeKind → Node π → Bool
  | [], _ => false
  | [k], n => n.kind = k
  | k :: ks, n => n.kind = k && n.children.any (follows ks)

theorem path_of_follows {ks : List NodeKind} {n : Node π} (h : n.follows ks = true) :
    ∃ ns, n.Path ns ∧ ns.map kind = ks := by
  induction ks generalizing n with
  | nil => cases h
  | cons k ks ih =>
    cases ks with
    | nil => exact ⟨[n], .here n, by simpa [follows] using h⟩
    | cons k' ks =>
      obtain ⟨hk, hc⟩ := Bool.and_eq_true_iff.mp h
      obtain ⟨m, hm, hf⟩ := List.any_eq_true.mp hc
      obtain ⟨ns, hp, hns⟩ := ih hf
      refine ⟨n :: ns, .down hm hp, ?_⟩
      rw [List.map_cons, hns, of_decide_eq_true hk]

end Node

end

/-! Rules and phrases -/

/-- The constructs that reading a rule opens before anything else. -/
def Rule.levels : Rule → Nat
  | .expr => 1
  | _ => 0

/-- Whether reading the rule opens no more than `room` constructs at a time. -/
def Rule.Fits (Q : Node Nat → Prop) (room : Nat) (r : Rule) (v : r.Result) : Prop :=
  r.levels ≤ room ∧ (r.toNode v).Fits Q (room - r.levels)

namespace Rule.Fits

variable {Q : Node Nat → Prop} {room : Nat} {r r' : Rule} {v : r.Result} {v' : r'.Result}

/-- A part that is opened by its own rule, if at all. -/
theorem part (h : r.Fits Q room v) (hr : r.levels = 0)
    (hm : r'.toNode v' ∈ (r.toNode v).children)
    (ho : (r.toNode v).opens (r'.toNode v') = r'.levels) : r'.Fits Q room v' := by
  have hc := h.2.child hm
  rwa [ho, hr] at hc

/-- A part that stands one level deeper than the whole. -/
theorem inside (h : r.Fits Q (room + 1) v) (hr : r.levels = 0) (hr' : r'.levels = 0)
    (hm : r'.toNode v' ∈ (r.toNode v).children)
    (ho : (r.toNode v).opens (r'.toNode v') = 1) : r'.Fits Q room v' := by
  have hc := h.2.child hm
  rw [ho, hr] at hc
  refine ⟨hr' ▸ Nat.zero_le _, ?_⟩
  rw [hr']
  exact hc.2

/-- What opens a construct needs room for it. -/
theorem roomy (h : r.Fits Q room v) (ho : r.levels + (r.toNode v).opensList = 1) :
    ∃ room', room = room' + 1 := by
  have hl := h.1
  have hn := h.2.own.1
  exact ⟨room - 1, by omega⟩

end Rule.Fits

/-- Whether a phrase stands for results of rules that are all as `P` says. -/
def Phrase.Every (P : (r : Rule) → r.Result → Prop) : (p : Phrase) → p.Result → Prop
  | rule r, v => P r v
  | optional p, o => ∀ v, o = some v → p.Every P v
  | after _ p, v | between _ _ p, v => p.Every P v
  | star p, vs | separated _ p, vs | listed _ _ p, vs | body p, vs => ∀ v ∈ vs, p.Every P v
  | typeParameters, vs => ∀ v ∈ vs, P .typeParam v
  | rootKind, d | classKind, d | enumKind, d =>
    match d with
    | .classDecl d => P .classDecl d
    | .importDecl d => P .importDecl d
    | .enumDecl d => P .enumDecl d
    | .varDecl d => P .varDecl d
    | .funcDecl d => P .funcDecl d
    | .caseDecl d => P .caseDecl d
    | .initialiser d => P .initialiserDecl d
  | caseHead, o => ∀ v, o = some v → P .caseSelect v
  | _, _ => True

/-- The declaration in a node that holds only that. -/
theorem Rule.Fits.decl {Q : Node Nat → Prop} {room : Nat} {r : Rule} {v : r.Result} {d : Decl Nat}
    (h : r.Fits Q room v) (hr : r.levels = 0) (hc : (r.toNode v).children = [d.node]) :
    Phrase.rootKind.Every (Rule.Fits Q room) d := by
  have hm : d.node ∈ (r.toNode v).children := by simp [hc]
  cases d <;> exact h.part hr hm rfl

end Syntree
