import Syntree.Tree.Walk

/-!
The declarations of a tree by name.
-/

namespace Syntree

variable {π : Type}

namespace Decl

def pos (d : Decl π) : π := d.node.pos

/-- The declared name. Variables declared together go by the first; initialisers have no name. -/
def name? : Decl π → Option String
  | classDecl d => some d.type.name
  | importDecl d => some (d.given.getD d.path)
  | enumDecl d => some d.type.name
  | varDecl d => d.vars.head?.map (·.name)
  | funcDecl d => some d.name
  | caseDecl d => some d.name
  | initialiser _ => none

/-- The declarations directly inside a class or enum. -/
def members : Decl π → List (Decl π)
  | classDecl d => d.members.map (·.decl)
  | enumDecl d => d.members.map (·.decl)
  | _ => []

theorem sizeOf_lt_of_mem_members {inner d : Decl π} (h : inner ∈ d.members) :
    sizeOf inner < sizeOf d := by
  cases d with
  | classDecl d | enumDecl d =>
    obtain ⟨member, hm, rfl⟩ := List.mem_map.mp h
    have := List.sizeOf_lt_of_mem hm
    cases member
    cases d
    simp at this ⊢
    omega
  | _ => simp [members] at h

/-- A declaration and those inside it at any depth, each before what it contains. -/
def withInner (depth : Nat) (d : Decl π) : List (Nat × Decl π) :=
  (depth, d) :: d.members.attach.flatMap fun ⟨inner, _⟩ => inner.withInner (depth + 1)
termination_by sizeOf d
decreasing_by exact sizeOf_lt_of_mem_members ‹_›

end Decl

namespace Ast

def decls (a : Ast π) : List (Decl π) :=
  a.declarations.map (·.decl)

/-- The first declaration at the top with the given name. -/
def find? (a : Ast π) (name : String) : Option (Decl π) :=
  a.decls.find? (·.name? == some name)

def allDecls (a : Ast π) : List (Nat × Decl π) :=
  a.decls.flatMap (·.withInner 0)

end Ast

end Syntree
