import Syntree.Proofs.Phrases

/-!
What each phrase starts with, and before which tokens its reading halts.
-/

namespace Syntree

open Grammar (tokenAt)

/-- Whether a phrase may stand for nothing. -/
def Phrase.nullable : Phrase → Bool
  | flag _ | separator _ | optional _ | star _ | body _ | modifiers | rule .ast => true
  | separated _ p => p.nullable
  | _ => false

/-- The tokens that a phrase can start with. -/
def Phrase.starts : Phrase → Lexeme → Bool
  | literal text, l | flag text, l | separator text, l | after text _, l | between text _ _, l
  | listed text _ _, l => l.spells text
  | token kind, l => l.kind == kind
  | rule r, l => r.starts l
  | optional p, l | star p, l => p.starts l
  | separated text p, l => p.starts l || p.nullable && l.spells text
  | body p, l => p.starts l || p.nullable && l.spells ";"
  | typeParameters, l => l.spells "<"
  | modifiers, l => l.kind == .modifier
  | rootKind, l => l.spells "class" || l.spells "import" || l.spells "enum" || l.spells "let" ||
    l.spells "fn"
  | classKind, l => l.spells "let" || l.spells "fn" || l.spells "class" || l.spells "enum" ||
    l.spells "init"
  | enumKind, l => l.spells "case" || l.spells "let" || l.spells "fn" || l.spells "class" ||
    l.spells "enum" || l.spells "init"
  | caseHead, l => l.spells "default" || l.spells "case"

theorem Slot.pinned_token (l : Lexeme) (u : List Slot) :
    ∃ u', pinned (.token l :: u) = .token l :: u' := by
  unfold pinned
  split
  · next heq =>
    cases heq
    split <;> exact ⟨_, rfl⟩
  · exact ⟨u, rfl⟩

variable {limits : Limits} {input : Array Lexeme} {p : Phrase} {v : p.Result} {i j k : Nat}
  {w : List Slot}

/-- A word that is not empty starts with a token that its phrase can start with. -/
def Leads (input : Array Lexeme) (p : Phrase) (i : Nat) (w : List Slot) (j : Nat) : Prop :=
  (i < j ∧ p.starts (tokenAt input i) = true ∧
    (p.nullable = false → ∃ u, w = .token (tokenAt input i) :: u)) ∨
  (i = j ∧ p.nullable = true)

theorem Leads.of {q : Phrase} (h : Leads input q i w j) (hq : q.nullable = false)
    (hs : ∀ l, q.starts l = true → p.starts l = true) : Leads input p i w j := by
  rcases h with ⟨hlt, hl, hw⟩ | ⟨-, hn⟩
  · exact .inl ⟨hlt, hs _ hl, fun _ => hw hq⟩
  · rw [hq] at hn
    cases hn

theorem Leads.append {u : List Slot} (h : Leads input p i w j) (hp : p.nullable = false)
    (hjk : j ≤ k) : Leads input p i (w ++ u) k := by
  rcases h with ⟨hlt, hl, hw⟩ | ⟨-, hn⟩
  · obtain ⟨u', rfl⟩ := hw hp
    exact .inl ⟨Nat.lt_of_lt_of_le hlt hjk, hl, fun _ => ⟨u' ++ u, rfl⟩⟩
  · rw [hp] at hn
    cases hn

/-- Two parts, of which the first may be empty. -/
theorem Leads.followed {q r : Phrase} {u : List Slot} (hq : Leads input q i w j)
    (hr : Leads input r j u k) (hjk : j ≤ k)
    (hs : ∀ l, q.starts l = true → p.starts l = true)
    (ht : ∀ l, q.nullable = true → r.starts l = true → p.starts l = true)
    (hn : q.nullable = true → p.nullable = true) : Leads input p i (w ++ u) k := by
  rcases hq with ⟨hlt, hl, hw⟩ | ⟨rfl, hq⟩
  · refine .inl ⟨Nat.lt_of_lt_of_le hlt hjk, hs _ hl, fun hp => ?_⟩
    obtain ⟨u', rfl⟩ := hw (by
      rw [← Bool.not_eq_true] at hp ⊢
      exact mt hn hp)
    exact ⟨u' ++ u, rfl⟩
  · have hp := hn hq
    rcases hr with ⟨hlt, hl, -⟩ | ⟨rfl, -⟩
    · exact .inl ⟨hlt, ht _ hq hl, fun hp' => by rw [hp] at hp'; cases hp'⟩
    · exact .inr ⟨rfl, hp⟩

theorem Derives.first (h : Derives limits input p i w j v) : Leads input p i w j := by
  induction h with
  -- Tokens
  | literal spelt => exact .inl ⟨Nat.lt_succ_self _, spelt, fun _ => ⟨[], rfl⟩⟩
  | token _ found =>
    exact .inl ⟨Nat.lt_succ_self _, by simp [Phrase.starts, found], fun _ => ⟨[], rfl⟩⟩
  | separatorPresent found =>
    exact .inl ⟨Nat.lt_succ_self _, by simp [Phrase.starts, found, Lexeme.spells], Bool.noConfusion⟩
  | flagAbsent | separatorAbsent | modifiersNil | optionalNone | starNil | bodyEmpty =>
    exact .inr ⟨rfl, rfl⟩
  | flagPresent _ ih => exact ih.of rfl fun _ => id
  | modifiersCons found rest =>
    exact .inl ⟨Nat.lt_of_succ_le rest.le, by simp [Phrase.starts, found], Bool.noConfusion⟩
  -- Options and lists
  | optionalSome part ih =>
    rcases ih with ⟨hlt, hs, -⟩ | ⟨rfl, -⟩
    · exact .inl ⟨hlt, hs, Bool.noConfusion⟩
    · exact .inr ⟨rfl, rfl⟩
  | starCons first rest ihf ihr =>
    exact ihf.followed ihr rest.le (fun _ => id) (fun _ _ => id) fun _ => rfl
  | separated first rest ihf ihr =>
    exact ihf.followed ihr rest.le (by simp +contextual [Phrase.starts])
      (by simp +contextual [Phrase.starts]) id
  | body items last ihi ihl =>
    exact ihi.followed ihl last.le (fun _ => id)
      (by simp +contextual [Phrase.starts, Phrase.nullable]) fun _ => rfl
  | ast declarations =>
    rcases Nat.lt_or_eq_of_le declarations.le with hlt | rfl
    · exact .inl ⟨hlt, rfl, Bool.noConfusion⟩
    · exact .inr ⟨rfl, rfl⟩
  | rootDecl ms decl _ ih | enumMember ms decl _ ih | classMember ms decl _ ih =>
    cases ms with
    | modifiersNil => exact ih.of rfl (by grind [Phrase.starts, Rule.starts])
    | modifiersCons found rest =>
      refine .inl ⟨Nat.lt_of_succ_le (Nat.le_trans rest.le decl.le), ?_, fun _ => ⟨_, rfl⟩⟩
      simp [Phrase.starts, Rule.starts, found]
  -- One part that decides
  | memberKind _ ih => exact ih.of rfl (by grind [Phrase.starts, Rule.starts])
  | caseKind _ ih | varKind _ ih | funcKind _ ih | innerClass _ ih
  | innerEnum _ ih | initialiserKind _ ih | retStmt _ ih | condStmt _ ih | loopStmt _ ih
  | chooseStmt _ ih | varStmt _ ih | funcStmt _ ih | classStmt _ ih | enumStmt _ ih
  | block _ ih | defaultHead _ ih | selectHead _ ih | enumSelect _ ih | exprSelect _ ih
  | expr _ ih | operand _ ih | number _ _ ih | string _ ih | call _ ih | arrayLiteral _ ih
  | dictOrSetLiteral _ ih => exact ih.of rfl (by simp +contextual [Phrase.starts, Rule.starts])
  | blockStmt _ ih | terminal _ ih | arrayTerminal _ ih | dictTerminal _ ih | parenTerminal _ ih
  | referenceTerminal _ ih | memberSelector _ ih | indexSelector _ ih
  | callSelector _ ih =>
    exact ih.of rfl (by simp +contextual [Phrase.starts, Rule.starts, Lexeme.startsExpr,
      Lexeme.startsTerminal, Lexeme.startsSelector])
  | literalTerminal _ ih =>
    exact ih.of rfl (by grind [Phrase.starts, Rule.starts, Lexeme.startsTerminal])
  | exprStmt _ _ ih =>
    have hs : Leads input (.rule .stmt) _ _ _ :=
      ih.of rfl (by simp +contextual [Phrase.starts, Rule.starts])
    rcases hs with ⟨hlt, hl, hw⟩ | ⟨-, hn⟩
    · obtain ⟨u, rfl⟩ := hw rfl
      exact .inl ⟨hlt, hl, fun _ => Slot.pinned_token _ u⟩
    · cases hn
  | prefixed known spelt operand =>
    refine .inl ⟨Nat.lt_of_succ_le operand.le, ?_, fun _ => ⟨_, rfl⟩⟩
    simp only [unaryOperators, List.mem_cons, List.not_mem_nil, or_false] at known
    rcases known with rfl | rfl <;>
      simp_all [Phrase.starts, Rule.starts, Lexeme.startsExpr, Op.spelling]
  -- A part that decides and what follows it
  | operation _ _ _ _ right ih =>
    exact ih.append rfl (Nat.le_of_succ_le right.le)
  | after _ a ih | typeDecl _ a ih | typeParam _ a ih | varDecl _ a ih | returnStmt _ a ih
  | reference _ a ih | entry _ a ih =>
    exact (ih.of rfl fun _ => id).append rfl a.le
  | rootClass _ a ih | rootImport _ a ih | rootEnum _ a ih | rootFunc _ a ih | rootVar _ a ih =>
    exact (ih.of rfl (by simp +contextual [Phrase.starts, Rule.starts])).append rfl a.le
  | between _ a b ih | importDecl _ a b ih | enumDecl _ a b ih | classDecl _ a b ih
  | caseDecl _ a b ih | varBinding _ a b ih | switchStmt _ a b ih | caseStmt _ a b ih
  | enumCase _ a b ih =>
    exact ((ih.of rfl fun _ => id).append rfl a.le).append rfl b.le
  | parameters _ a b ih =>
    exact ((ih.of rfl (by simp [Phrase.starts, Rule.starts, Phrase.nullable])).append rfl
      a.le).append rfl b.le
  | listed _ a b c ih | typeParameters _ a _ b c ih | initialiserDecl _ a b c ih
  | ifStmt _ a b c ih =>
    exact (((ih.of rfl fun _ => id).append rfl a.le).append rfl b.le).append rfl c.le
  | forStmt _ a b c d ih =>
    exact ((((ih.of rfl fun _ => id).append rfl a.le).append rfl b.le).append rfl c.le).append rfl
      d.le
  | funcDecl _ a b c d e ih =>
    exact (((((ih.of rfl fun _ => id).append rfl a.le).append rfl b.le).append rfl c.le).append rfl
      d.le).append rfl e.le

theorem Derives.starts (h : Derives limits input p i w j v) (hn : p.nullable = false) :
    p.starts (tokenAt input i) = true := by
  rcases h.first with ⟨-, hs, -⟩ | ⟨-, hn'⟩
  · exact hs
  · rw [hn] at hn'
    cases hn'

/-- Whether a phrase is given up at the token `a`, which is followed by `b`. A mark is given up
where what it announces does not follow. -/
def Phrase.Refuses : Phrase → Lexeme → Lexeme → Prop
  | after text p, a, b => a.spells text = true → p.nullable = false ∧ p.starts b = false
  | p, a, _ => p.nullable = false ∧ p.starts a = false

/-- Whether an expression ends before this token. -/
def Lexeme.endsExpr (a : Lexeme) : Bool :=
  !a.startsSelector && a.binaryOperator?.isNone

def Lexeme.endsMember (a : Lexeme) : Bool := a.spells ";" || a.spells "\x7d"

def Lexeme.endsCase (a : Lexeme) : Bool :=
  a.spells "\x7d" || a.spells "case" || a.spells "default"

/-- Whether reading a rule halts before the token `a`, which is followed by `b`. Only where the rule
may be left with a part that could go on does this depend on them. -/
def Rule.halts : (r : Rule) → r.Result → Lexeme → Lexeme → Bool
  | rootDecl, _, a, _ => !a.spells ";"
  | classMember, _, a, _ | enumMember, _, a, _ => a.endsMember
  | caseDecl, _, a, _ | enumCase, _, a, _ => !a.spells "("
  | varDecl, _, a, b => a.endsExpr && !a.spells ":" && !(a.spells "," && b.kind == .ident)
  | varBinding, _, a, _ | entry, _, a, _ => a.endsExpr && !a.spells ":"
  | typeDecl, _, a, _ => !a.spells "<"
  | typeParam, v, a, b => !a.spells ":" && !a.startsSelector &&
    (!(a.spells "," && b.kind == .ident) || v.constraints.isEmpty)
  | stmt, _, a, _ => a.spells ";" || a.endsCase
  | returnStmt, _, a, _ => a.endsExpr && !a.startsExpr
  | ifStmt, _, a, _ => !a.spells "else"
  | caseStmt, _, a, _ => a.endsCase
  | expr, _, a, _ | caseSelect, _, a, _ => a.endsExpr
  | binary min, _, a, _ => !a.startsSelector &&
    a.binaryOperator?.all fun q => decide (q.2.rank ≤ min.rank)
  | parameters, _, a, _ | unary, _, a, _ | terminal, _, a, _ | reference, _, a, _ =>
    !a.startsSelector
  | _, _, _, _ => true

/-- Whether a list of items halts: its last item before the token `a`, and every other one before
whatever can start the next. -/
def HaltsAll {α : Type} (starts : Lexeme → Bool) (halts : α → Lexeme → Lexeme → Prop) (vs : List α)
    (a b : Lexeme) : Prop :=
  (∀ v ∈ vs.getLast?, halts v a b) ∧
    ∀ v ∈ vs.dropLast, ∀ a b, a.Lawful → starts a = true → halts v a b

/-- Whether reading a phrase halts before the token `a`, which is followed by `b`. -/
def Phrase.Halts : (p : Phrase) → p.Result → Lexeme → Lexeme → Prop
  | literal _, _, _, _ | token _, _, _, _ | typeParameters, _, _, _ => True
  | flag text, _, a, _ | separator text, _, a, _ => a.spells text = false
  | rule r, v, a, b => r.halts v a b = true
  | optional p, none, a, b => p.Refuses a b
  | optional p, some v, a, b => p.Halts v a b
  | after _ p, v, a, b => p.Halts v a b
  | between _ closing p, v, _, _ => ∀ a b, a.Lawful → a.spells closing = true → p.Halts v a b
  | star p, vs, a, b => p.Refuses a b ∧ HaltsAll p.starts p.Halts vs a b
  | separated text p, vs, a, b =>
    (after text p).Refuses a b ∧ HaltsAll (·.spells text) p.Halts vs a b
  | listed _ closing p, _, _, _ => p.nullable = false ∧ closing ≠ "," ∧
    ∀ a, a.Lawful → a.spells "," = true ∨ a.spells closing = true →
      p.starts a = false ∧ ∀ v b, p.Halts v a b
  | body p, _, a, b => p.nullable = false ∧ p.starts a = false ∧ a.spells ";" = false ∧
    (∀ v, p.Halts v a b) ∧ ∀ v a b, a.Lawful → a.spells ";" = true → p.Halts v a b
  | modifiers, _, a, _ => a.kind ≠ .modifier
  | rootKind, _, a, _ => a.spells ";" = false
  | classKind, _, a, _ | enumKind, _, a, _ => a.endsMember = true
  | caseHead, _, a, _ => a.endsExpr = true

end Syntree
