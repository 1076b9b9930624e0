import Syntree.Proofs.Ends

/-!
What each rule can start with. At any other token the rule fails and has read nothing.
-/

namespace Syntree

namespace Lexeme

def startsTerminal (l : Lexeme) : Bool :=
  l.spells "[" || l.spells "\x7b" || l.spells "(" || l.kind == .number || l.kind == .string ||
    l.kind == .ident

def startsExpr (l : Lexeme) : Bool :=
  l.spells "!" || l.spells "-" || l.startsTerminal

def startsSelector (l : Lexeme) : Bool :=
  l.spells "." || l.spells "[" || l.spells "("

end Lexeme

/-- The tokens that a rule can start with. A whole source can start with any. -/
def Rule.starts : Rule → Lexeme → Bool
  | ast, _ => true
  | rootDecl, l => l.kind == .modifier || l.spells "class" || l.spells "import" ||
    l.spells "enum" || l.spells "let" || l.spells "fn"
  | enumMember, l => l.kind == .modifier || l.spells "case" || l.spells "let" || l.spells "fn" ||
    l.spells "class" || l.spells "enum" || l.spells "init"
  | classMember, l => l.kind == .modifier || l.spells "let" || l.spells "fn" ||
    l.spells "class" || l.spells "enum" || l.spells "init"
  | importDecl, l => l.spells "import"
  | enumDecl, l => l.spells "enum"
  | caseDecl, l => l.spells "case"
  | classDecl, l => l.spells "class"
  | initialiserDecl, l => l.spells "init"
  | varDecl, l => l.spells "let"
  | funcDecl, l => l.spells "fn"
  | parameters, l | varBinding, l | typeDecl, l | typeParam, l | reference, l => l.kind == .ident
  | returnStmt, l => l.spells "return"
  | ifStmt, l => l.spells "if"
  | forStmt, l => l.spells "for"
  | switchStmt, l => l.spells "switch"
  | stmt, l => l.spells "return" || l.spells "if" || l.spells "for" || l.spells "switch" ||
    l.spells "let" || l.spells "fn" || l.spells "class" || l.spells "enum" || l.startsExpr
  | block, l | dictOrSetLiteral, l => l.spells "\x7b"
  | caseStmt, l => l.spells "default" || l.spells "case"
  | enumCase, l => l.spells "."
  | caseSelect, l => l.spells "." || l.startsExpr
  | expr, l | binary _, l | unary, l | entry, l => l.startsExpr
  | terminal, l => l.startsTerminal
  | literal, l => l.kind == .number || l.kind == .string
  | selector, l => l.startsSelector
  | call, l => l.spells "("
  | arrayLiteral, l => l.spells "["

/-- The constructs that a rule opens at a time where it reads nothing: an expression is entered
before its first token is looked at. -/
def Rule.tries : Rule → Nat
  | stmt | caseSelect | expr | entry => 1
  | _ => 0

theorem Rule.tries_le_one (r : Rule) : r.tries ≤ 1 := by
  unfold tries
  split <;> decide

namespace Grammar

variable {α β : Type}

/-- Whether the text of a grammar shows that at the token `l` it reads nothing, opens at most `room`
constructs at a time, and ends as `Q` says. -/
def Stays (l : Lexeme) : {α : Type} → Nat → Grammar α → (Option α → Prop) → Prop
  | _, _, done v, Q => Q (some v)
  | _, room, bind g f, Q => g.Stays l room fun o => o.elim (Q none) fun u => (f u).Stays l room Q
  | _, _, here, Q => ∀ i, Q (some i)
  | _, _, peek, Q => Q (some l)
  | _, _, expect es, Q => es.any (·.met l) = false ∧ Q none
  | _, _, fail, Q => Q none
  | _, room, orElse a b, Q =>
    a.Stays l room fun o => o.elim (b.Stays l room Q) fun v => Q (some v)
  | _, room, loop v f, Q => (f v).Stays l room (· = some none) ∧ Q (some v)
  | _, 0, nested _, _ => False
  | _, room + 1, nested g, Q => g.Stays l room Q
  | _, room, observe _ _ _ g, Q => g.Stays l room Q
  | _, room, call r, Q => r.starts l = false ∧ r.tries ≤ room ∧ Q none
  | _, _, advance, _ => False
  | _, _, operatorAbove _, _ => False
  | _, _, reject _, _ => False

section Syntax

variable {l : Lexeme} {room : Nat} {g : Grammar α} {Q : Option α → Prop}

@[simp] theorem stays_pure {v : α} : (pure v : Grammar α).Stays l room Q ↔ Q (some v) := .rfl

@[simp] theorem stays_bind {g : Grammar β} {f : β → Grammar α} :
    (g >>= f).Stays l room Q ↔
      g.Stays l room fun o => o.elim (Q none) fun u => (f u).Stays l room Q := .rfl

@[simp] theorem stays_here {Q : Option Nat → Prop} : here.Stays l room Q ↔ ∀ i, Q (some i) := .rfl

@[simp] theorem stays_expect {es : List Expectation} {Q : Option Lexeme → Prop} :
    (expect es).Stays l room Q ↔ es.any (·.met l) = false ∧ Q none := .rfl

@[simp] theorem stays_call {r : Rule} {Q : Option r.Result → Prop} :
    @Stays l (no_index r.Result) room (call r) Q ↔
      r.starts l = false ∧ r.tries ≤ room ∧ Q none := .rfl

@[simp] theorem stays_literal {text : String} {Q : Option Unit → Prop} :
    (literal text).Stays l room Q ↔ l.spells text = false ∧ Q none := by
  simp [literal, Expectation.met]

@[simp] theorem stays_token {kind : TokenKind} {Q : Option String → Prop} :
    (token kind).Stays l room Q ↔ l.kind ≠ kind ∧ Q none := by
  simp [token, Expectation.met]

@[simp] theorem stays_attempt {Q : Option (Option α) → Prop} :
    (attempt g).Stays l room Q ↔ g.Stays l room fun o => Q (some o) := by
  have hq : (fun o : Option α => Q (some o)) = fun o => Option.elim
      (o.elim none fun v => some (some v)) (Q (some none)) fun v => Q (some v) := by
    funext o
    cases o <;> rfl
  rw [hq]
  change (g.Stays l room fun o => _) ↔ _
  apply iff_of_eq
  congr 1
  funext o
  cases o <;> rfl

@[simp] theorem stays_choice_nil : (choice ([] : List (Grammar α))).Stays l room Q ↔ Q none := .rfl

@[simp] theorem stays_choice_cons {gs : List (Grammar α)} :
    (choice (g :: gs)).Stays l room Q ↔
      g.Stays l room fun o => o.elim ((choice gs).Stays l room Q) fun v => Q (some v) := .rfl

@[simp] theorem stays_many {Q : Option (List α) → Prop} :
    (many g).Stays l room Q ↔ g.Stays l room (· = none) ∧ Q (some []) := by
  change ((round g []).Stays l room (· = some none) ∧ Q (some [])) ↔ _
  simp [round]

end Syntax

variable {input : Array Lexeme} {limits : Limits}
  {rules : (r : Rule) → State → Reply r.Result}

theorem exec_stays
    (hr : ∀ r s, r.starts (tokenAt input s.cursor) = false →
      (rules r s).Ends (limits.Short s.depth r.tries) s.depth fun o k => o = none ∧ k = s.cursor)
    {room : Nat} {g : Grammar α} {Q : Option α → Prop} {s : State}
    (hg : g.Stays (tokenAt input s.cursor) room Q) :
    (exec input limits rules g s).Ends (limits.Short s.depth room) s.depth
      fun o k => Q o ∧ k = s.cursor := by
  induction g generalizing s room with
  | done v => exact ⟨rfl, hg, rfl⟩
  | here => exact ⟨rfl, hg _, rfl⟩
  | peek => exact ⟨rfl, hg, rfl⟩
  | fail => exact ⟨rfl, hg, rfl⟩
  | advance | operatorAbove | reject => exact absurd hg id
  | call r =>
    refine (hr r s hg.1).mono (fun h => h.mono hg.2.1) ?_
    rintro o k ⟨rfl, hk⟩
    exact ⟨hg.2.2, hk⟩
  | expect es =>
    rw [expect_mismatch.mpr ⟨hg.1, rfl⟩]
    exact ⟨rfl, hg.2, rfl⟩
  | bind g f ihg ihf =>
    refine (ihg hg).andThen (fun _ h => h) ?_
    rintro v t hd ⟨hv, ht⟩
    rw [← ht] at hv ⊢
    exact .at_depth hd (ihf v hv)
  | orElse a b iha ihb =>
    refine (iha hg).orElse (fun _ _ h => h) ?_ ?_
    · rintro j ⟨-, rfl⟩ hc
      rw [committed_self] at hc
      cases hc
    · rintro t j ⟨hb, -⟩ - ht hd
      rw [← ht] at hb ⊢
      exact .at_depth hd (ihb hb)
  | loop v f ih =>
    unfold exec iterate
    refine (ih v hg.1).andThen (fun _ h => absurd h.1 (by simp)) ?_
    rintro o t hd ⟨ho, ht⟩
    cases ho
    exact ⟨hd, hg.2, ht⟩
  | nested g ih =>
    cases room with
    | zero => exact absurd hg id
    | succ room => exact ends_nested (ih (s := { s with depth := s.depth + 1 }) hg)
  | observe level name reading g ih => exact (ih hg).restate rfl id

end Grammar

open Grammar

section Productions

open Productions

theorem Rule.production_stays {r : Rule} {l : Lexeme} (h : r.starts l = false) :
    r.production.Stays l r.tries (· = none) := by
  cases r
  case ast => cases h
  case expr => exact ⟨h, Nat.le_refl 0, rfl⟩
  case stmt =>
    have hb : l.spells "\x7b" = false := by
      simp_all [starts, Lexeme.startsExpr, Lexeme.startsTerminal]
    simp only [starts, Bool.or_eq_false_iff] at h
    obtain ⟨⟨⟨⟨⟨⟨⟨⟨hret, hif⟩, hfor⟩, hswitch⟩, hlet⟩, hfn⟩, hclass⟩, henum⟩, hexpr⟩ := h
    have ht (r : Rule) : r.tries ≤ stmt.tries := r.tries_le_one
    exact fun _ => ⟨hret, ht _, hif, ht _, hfor, ht _, hswitch, ht _, hb, ht _, hlet, ht _, hfn,
      ht _, hclass, ht _, henum, ht _, hexpr, ht _, rfl⟩
  case unary =>
    simp only [starts, Lexeme.startsExpr, Bool.or_eq_false_iff] at h
    simp [h, starts, tries, Expectation.met, Op.spelling]
  all_goals simp only [starts, Lexeme.startsSelector, Lexeme.startsTerminal, Bool.or_eq_false_iff,
    beq_eq_false_iff_ne] at h
  all_goals simp [h, starts, tries, Grammar.binary, number]

end Productions

variable {input : Array Lexeme} {limits : Limits}

/-- A rule that the current token cannot start fails and has read nothing. -/
theorem Rule.run_refuses (n : Nat) {r : Rule} {s : State}
    (h : r.starts (tokenAt input s.cursor) = false) :
    (Rule.run input limits n r s).Ends (limits.Short s.depth r.tries) s.depth
      fun o k => o = none ∧ k = s.cursor := by
  induction n generalizing r s with
  | zero => trivial
  | succ n ih => exact exec_stays (fun _ _ hq => ih hq) (production_stays h)

theorem Rule.run_starts {n : Nat} {r : Rule} {s s' : State} {v : r.Result}
    (h : Rule.run input limits n r s = ⟨.ok v, s'⟩) :
    r.starts (tokenAt input s.cursor) = true := by
  cases hs : r.starts (tokenAt input s.cursor) with
  | true => rfl
  | false =>
    have he : (Rule.run input limits n r s).Ends (limits.Short s.depth r.tries) s.depth
        fun o k => o = none ∧ k = s.cursor := run_refuses n hs
    rw [h] at he
    cases he.2.1

end Syntree
