import Syntree.Proofs.Lookahead

/-!
The trees of binary operators. An expression is its operands and operators from left to right, and
how tightly the operators bind leaves one tree for these. The loop over operators builds it, since a
right operand ends where no operator follows that it could take.
-/

namespace Syntree

open Grammar (tokenAt exec operation)

/-! How operators may be nested -/

namespace Power

/-- Whether operators of a power group to the right. -/
def groupsRight (p : Power) : Bool :=
  p = assignment ∨ p = power

/-- Whether below an operator of power `p`, on its right or on its left, there may be one of power
`q`: one that binds tighter, or as tightly if such operators group to that side. -/
def Admits (p : Power) (right : Bool) (q : Power) : Prop :=
  p.rank < q.rank ∨ q = p ∧ p.groupsRight = right

theorem rank_inj {p q : Power} (h : p.rank = q.rank) : p = q := by
  cases p <;> cases q <;> first | rfl | cases h

theorem rightOperand_rank (p : Power) :
    p.rightOperand.rank = if p.groupsRight then p.rank - 1 else p.rank := by
  cases p <;> rfl

namespace Admits

variable {p q r : Power} {right : Bool}

theorem of_rank_le (h : p.rank ≤ q.rank) (hg : p.groupsRight = right) : p.Admits right q := by
  rcases Nat.lt_or_eq_of_le h with hlt | heq
  · exact .inl hlt
  · exact .inr ⟨(rank_inj heq).symm, hg⟩

theorem rank_le (h : p.Admits right q) : p.rank ≤ q.rank := by
  rcases h with h | ⟨rfl, -⟩
  · exact Nat.le_of_lt h
  · exact Nat.le_refl _

/-- What binds tighter still may be there as well. -/
theorem mono (h : p.Admits right q) (hr : q.rank ≤ r.rank) : p.Admits right r := by
  rcases h with h | ⟨rfl, hg⟩
  · exact .inl (Nat.lt_of_lt_of_le h hr)
  · exact of_rank_le hr hg

/-- Two operators cannot each be below the other, the second to the right of the first. -/
theorem not_both (h : p.Admits true q) (h' : q.Admits false p) : False := by
  have hle := h.rank_le
  have hle' := h'.rank_le
  obtain rfl : p = q := rank_inj (by omega)
  rcases h with h | ⟨-, hg⟩
  · omega
  · rcases h' with h' | ⟨-, hg'⟩
    · omega
    · rw [hg] at hg'
      cases hg'

/-- What is tight enough for a right operand may be below on the right. -/
theorem of_rightOperand (h : p.rightOperand.rank < q.rank) : p.Admits true q := by
  rw [rightOperand_rank] at h
  cases hg : p.groupsRight with
  | true =>
    rw [hg, if_pos rfl] at h
    exact of_rank_le (by omega) hg
  | false =>
    rw [hg, if_neg Bool.false_ne_true] at h
    exact .inl h

/-- What leaves an operator to be the next may be below it on the left. -/
theorem of_left (h : p.rank ≤ q.rightOperand.rank) (hp : 0 < p.rank) : p.Admits false q := by
  rw [rightOperand_rank] at h
  cases hg : q.groupsRight with
  | true =>
    rw [hg, if_pos rfl] at h
    exact .inl (by omega)
  | false =>
    rw [hg, if_neg Bool.false_ne_true] at h
    rcases Nat.lt_or_eq_of_le h with hlt | heq
    · exact .inl hlt
    · obtain rfl := rank_inj heq
      exact .inr ⟨rfl, hg⟩

end Admits
end Power

theorem Op.rank_pos {op : Op} {p : Power} (h : op.power? = some p) : 0 < p.rank := by
  cases op <;> cases h <;> decide

theorem List.append_cons_cases {α : Type} {xs xs' ys ys' : List α} {a b : α}
    (h : xs ++ a :: ys = xs' ++ b :: ys') :
    (xs = xs' ∧ a = b ∧ ys = ys') ∨ (a ∈ xs' ∧ b ∈ ys) ∨ b ∈ xs ∧ a ∈ ys' := by
  rcases List.append_eq_append_iff.mp h with ⟨zs, hxs, hys⟩ | ⟨zs, hxs, hys⟩
  · cases zs with
    | nil =>
      obtain ⟨rfl, rfl⟩ := List.cons.inj hys
      exact .inl ⟨by simpa using hxs.symm, rfl, rfl⟩
    | cons z zs =>
      obtain ⟨rfl, rfl⟩ := List.cons.inj hys
      exact .inr (.inl ⟨by simp [hxs], by simp⟩)
  · cases zs with
    | nil =>
      obtain ⟨rfl, rfl⟩ := List.cons.inj hys
      exact .inl ⟨by simpa using hxs, rfl, rfl⟩
    | cons z zs =>
      obtain ⟨rfl, rfl⟩ := List.cons.inj hys
      exact .inr (.inr ⟨by simp [hxs], by simp⟩)

/-! Expressions from left to right -/

section

variable {π : Type}

namespace Expr

/-- The first operand. -/
def first : Expr π → Unary π
  | .unary _ operand => operand
  | .binary _ left _ _ => left.first

/-- The operators in order, each with the operand behind it. -/
def others : Expr π → List (Op × Unary π)
  | .unary _ _ => []
  | .binary _ left op right => left.others ++ (op, right.first) :: right.others

/-- The power of the operator that an expression consists of, if it is not an operand alone. -/
def power? : Expr π → Option Power
  | .unary _ _ => none
  | .binary _ _ op _ => op.power?

/-- Operators are nested as their powers ask for. -/
def Grouped : Expr π → Prop
  | .unary _ _ => True
  | .binary _ left op right => left.Grouped ∧ right.Grouped ∧ ∃ p, op.power? = some p ∧
      (∀ q, left.power? = some q → p.Admits false q) ∧
      ∀ q, right.power? = some q → p.Admits true q

/-- The same expression with each of its operations at the position of its first operand. -/
def seat : Expr π → Expr π
  | .unary _ operand => .unary operand.pos operand
  | .binary _ left op right => .binary left.first.pos left.seat op right.seat

variable {e e' : Expr π}

theorem seat_pos (e : Expr π) : e.seat.pos = e.first.pos := by
  cases e <;> rfl

/-- Below an operator there is nothing that it does not admit, however far down. -/
theorem Grouped.others_admitted {p : Power} {right : Bool} (h : e.Grouped)
    (ha : ∀ q, e.power? = some q → p.Admits right q) :
    ∀ x ∈ e.others, ∃ q, x.1.power? = some q ∧ p.Admits right q := by
  fun_induction others e with
  | case1 => intro x hx; cases hx
  | case2 pos l op r ihl ihr =>
    obtain ⟨hl, hr, p', hp', hleft, hright⟩ := h
    have hop := ha p' hp'
    intro x hx
    rcases List.mem_append.mp hx with hx | hx
    · exact ihl hl (fun q hq => hop.mono (hleft q hq).rank_le) x hx
    · rcases List.mem_cons.mp hx with rfl | hx
      · exact ⟨p', hp', hop⟩
      · exact ihr hr (fun q hq => hop.mono (hright q hq).rank_le) x hx

theorem Grouped.left_admitted {pos : π} {l r : Expr π} {op : Op} {p : Power}
    (h : (binary pos l op r).Grouped) (hp : op.power? = some p) :
    ∀ x ∈ l.others, ∃ q, x.1.power? = some q ∧ p.Admits false q := by
  obtain ⟨hl, -, p', hp', hleft, -⟩ := h
  obtain rfl := Option.some.inj (hp.symm.trans hp')
  exact hl.others_admitted hleft

theorem Grouped.right_admitted {pos : π} {l r : Expr π} {op : Op} {p : Power}
    (h : (binary pos l op r).Grouped) (hp : op.power? = some p) :
    ∀ x ∈ r.others, ∃ q, x.1.power? = some q ∧ p.Admits true q := by
  obtain ⟨-, hr, p', hp', -, hright⟩ := h
  obtain rfl := Option.some.inj (hp.symm.trans hp')
  exact hr.others_admitted hright

/-- Two trees do not have each its operator within the other, on opposite sides. -/
theorem Grouped.not_crossed {pos pos' : π} {l r l' r' : Expr π} {op op' : Op} {u u' : Unary π}
    (h : (binary pos l op r).Grouped) (h' : (binary pos' l' op' r').Grouped)
    (hright : (op', u') ∈ r.others) (hleft : (op, u) ∈ l'.others) : False := by
  obtain ⟨-, -, p, hp, -, -⟩ := id h
  obtain ⟨-, -, p', hp', -, -⟩ := id h'
  obtain ⟨q, hq, hadmits⟩ := h.right_admitted hp _ hright
  obtain ⟨q', hq', hadmits'⟩ := h'.left_admitted hp' _ hleft
  obtain rfl := Option.some.inj (hp'.symm.trans hq)
  obtain rfl := Option.some.inj (hp.symm.trans hq')
  exact hadmits.not_both hadmits'

/-- There is one way to nest the operators of an expression as their powers ask for. -/
theorem Grouped.unique (h : e.Grouped) (h' : e'.Grouped) (hfirst : e'.first = e.first)
    (hothers : e'.others = e.others) : e'.seat = e.seat := by
  fun_induction others e generalizing e' with
  | case1 pos u =>
    cases e' with
    | unary pos' u' =>
      have hu : u' = u := hfirst
      rw [hu]
      rfl
    | binary => simp [others] at hothers
  | case2 pos l op r ihl ihr =>
    cases e' with
    | unary => simp [others] at hothers
    | binary pos' l' op' r' =>
      have hfirst : l'.first = l.first := hfirst
      rcases List.append_cons_cases hothers with ⟨hl, hx, hr⟩ | ⟨hleft, hright⟩ | ⟨hleft, hright⟩
      · obtain ⟨hop, hrfirst⟩ := Prod.mk.inj hx
        rw [seat, seat, hfirst, hop, ihl h.1 h'.1 hfirst hl, ihr h.2.1 h'.2.1 hrfirst hr]
      · exact (h'.not_crossed h hright hleft).elim
      · exact (h.not_crossed h' hright hleft).elim

theorem leaves_iff {p : Power} :
    e.leaves p ↔ ∀ q, e.power? = some q → p.rank ≤ q.rightOperand.rank := by
  cases e with
  | unary => simp [leaves, power?]
  | binary => rfl

end Expr
end

variable {input : Array Lexeme} {limits : Limits} {n : Nat} {min p : Power} {s s' t : State}

/-- `Reads input limits s u us s'`: from `s` to `s'`, the operand `u` is read, and then the
operators of `us`, each with its operand. -/
inductive Reads (input : Array Lexeme) (limits : Limits) :
    State → Unary Nat → List (Op × Unary Nat) → State → Prop
  | operand {n : Nat} {s t : State} {u : Unary Nat}
      (read : Rule.run input limits n .unary s = ⟨.ok u, t⟩) : Reads input limits s u [] t
  | operation {n : Nat} {s t s' : State} {u v : Unary Nat} {op : Op} {p : Power}
      {us : List (Op × Unary Nat)} (read : Rule.run input limits n .unary s = ⟨.ok u, t⟩)
      (found : (tokenAt input t.cursor).binaryOperator? = some (op, p))
      (rest : Reads input limits { t with cursor := t.cursor + 1 } v us s') :
      Reads input limits s u ((op, v) :: us) s'

theorem Reads.append {u v : Unary Nat} {op : Op} {us vs : List (Op × Unary Nat)}
    (h : Reads input limits s u us t)
    (found : (tokenAt input t.cursor).binaryOperator? = some (op, p))
    (h' : Reads input limits { t with cursor := t.cursor + 1 } v vs s') :
    Reads input limits s u (us ++ (op, v) :: vs) s' := by
  induction h with
  | operand read => exact .operation read found h'
  | operation read found' _ ih => exact .operation read found' (ih found h')

/-- `Climbed input limits min s e s'`: what a run that yields `e` shows of it. -/
structure Climbed (input : Array Lexeme) (limits : Limits) (min : Power) (s : State)
    (e : Expr Nat) (s' : State) : Prop where
  reads : Reads input limits s e.first e.others s'
  grouped : e.Grouped
  tight : ∀ x ∈ e.others, ∃ q, x.1.power? = some q ∧ min.rank < q.rank
  seated : e.seat = e

theorem Climbed.power {e : Expr Nat} (h : Climbed input limits min s e s') :
    ∀ q, e.power? = some q → min.rank < q.rank := by
  intro q hq
  cases e with
  | unary => cases hq
  | binary pos l op r =>
    obtain ⟨q', hq', hlt⟩ := h.tight (op, r.first) (by simp [Expr.others])
    obtain rfl := Option.some.inj (hq.symm.trans hq')
    exact hlt

/-- One round of the loop: an operator that the left operand leaves, with its right operand. -/
theorem Climbed.operation {left right : Expr Nat} {op : Op}
    (hl : Climbed input limits min s left t) (hleaves : left.leaves p)
    (hop : (tokenAt input t.cursor).binaryOperator? = some (op, p)) (hmin : min.rank < p.rank)
    (hr : Climbed input limits p.rightOperand { t with cursor := t.cursor + 1 } right s') :
    Climbed input limits min s (.binary left.pos left op right) s' where
  reads := hl.reads.append hop hr.reads
  grouped := by
    have hp := Lexeme.power_of_binaryOperator hop
    refine ⟨hl.grouped, hr.grouped, p, hp, ?_, ?_⟩
    · intro q hq
      exact .of_left (Expr.leaves_iff.mp hleaves q hq) (Op.rank_pos hp)
    · intro q hq
      exact .of_rightOperand (hr.power q hq)
  tight := by
    intro x hx
    rcases List.mem_append.mp hx with hx | hx
    · exact hl.tight x hx
    · rcases List.mem_cons.mp hx with rfl | hx
      · exact ⟨p, Lexeme.power_of_binaryOperator hop, hmin⟩
      · obtain ⟨q, hq, hlt⟩ := hr.tight x hx
        have hle := (Power.Admits.of_rightOperand hlt).rank_le
        exact ⟨q, hq, by omega⟩
  seated := by
    have hpos : left.pos = left.first.pos := by rw [← Expr.seat_pos, hl.seated]
    rw [Expr.seat, hl.seated, hr.seated, hpos]

/-- A run of the loop over operators, by what each round adds. -/
theorem climbed_of_run {e : Expr Nat}
    (h : Rule.run input limits n (.binary min) s = ⟨.ok e, s'⟩) :
    Climbed input limits min s e s' := by
  induction n generalizing min s e s' with
  | zero => cases h
  | succ n ih =>
    have hrun : exec input limits (Rule.run input limits n) (Rule.binary min).production s =
        ⟨.ok e, s'⟩ := h
    rw [Rule.production_binary] at hrun
    obtain ⟨u, t, hu, hloop⟩ := Grammar.bind_ok.mp hrun
    -- what has been read so far leaves an operator that follows to be the next
    let Operand (left : Expr Nat) (t : State) : Prop := Climbed input limits min s left t ∧
      ∀ op p, (tokenAt input t.cursor).binaryOperator? = some (op, p) → left.leaves p
    have hstart : Operand (.unary u.pos u) t := by
      refine ⟨⟨.operand hu, trivial, ?_, rfl⟩, fun _ _ _ => trivial⟩
      intro x hx
      cases hx
    have hround : ∀ left t e' t', Operand left t →
        exec input limits (Rule.run input limits n) (operation min left) t = ⟨.ok (some e'), t'⟩ →
        Operand e' t' := by
      intro left t e' t' hleft hop
      obtain ⟨hclimbed, hleaves⟩ := hleft
      rcases operation_ok hop with ⟨hnone, -, -⟩ | ⟨op, p, right, he, hp, hr, hright⟩
      · cases hnone
      cases he
      refine ⟨hclimbed.operation (hleaves op p hp) hp hr (ih hright), ?_⟩
      intro op' q hq q' hq'
      rw [Lexeme.power_of_binaryOperator hp] at hq'
      cases hq'
      exact binary_stops hright op' q hq
    obtain ⟨t', hend, hlast⟩ := Grammar.iterate_ok hround _ hstart hloop
    rcases operation_ok hlast with ⟨-, rfl, -⟩ | ⟨_, _, _, hsome, -⟩
    · exact hend.1
    · cases hsome

/-- An expression is what was read from left to right, nested in the one way that the powers of its
operators ask for, and takes along all operators that bind tighter than `min`. -/
theorem binary_climbs {e : Expr Nat} (h : Rule.run input limits n (.binary min) s = ⟨.ok e, s'⟩) :
    Reads input limits s e.first e.others s' ∧ e.Grouped ∧
    (∀ e' : Expr Nat, e'.first = e.first → e'.others = e.others → e'.Grouped → e'.seat = e) ∧
    (∀ x ∈ e.others, ∃ p, x.1.power? = some p ∧ min.rank < p.rank) ∧
    ∀ op p, (tokenAt input s'.cursor).binaryOperator? = some (op, p) → ¬ min.rank < p.rank := by
  have hclimbed := climbed_of_run h
  refine ⟨hclimbed.reads, hclimbed.grouped, ?_, hclimbed.tight, ?_⟩
  · intro e' hfirst hothers hgrouped
    rw [hclimbed.grouped.unique hgrouped hfirst hothers, hclimbed.seated]
  · intro op p hp
    have hle := binary_stops h op p hp
    omega

/-- `a = b - c ^ d ^ e - f;`, with all of its operators taken. -/
theorem binary_climbs_mixed :
    let name (text : String) : Lexeme := ⟨.ident, text⟩
    let sign (text : String) : Lexeme := ⟨.operator, text⟩
    let input := #[name "a", sign "=", name "b", sign "-", name "c", sign "^", name "d", sign "^",
      name "e", sign "-", name "f", ⟨.punct, ";"⟩]
    ∃ e s', Rule.run input .standard 10 (.binary .lowest) .start = ⟨.ok e, s'⟩ ∧
      e.others.map (·.1) = [.asgn, .sub, .pow, .pow, .sub] ∧ e.power? = some .assignment ∧
      Reads input .standard .start e.first e.others s' ∧ e.Grouped ∧
      ∀ e' : Expr Nat, e'.first = e.first → e'.others = e.others → e'.Grouped → e'.seat = e := by
  intro name sign input
  have hops : (match (Rule.run input .standard 10 (.binary .lowest) .start).outcome with
      | .ok e => some (e.others.map (·.1), e.power?)
      | _ => none) =
      some ([.asgn, .sub, .pow, .pow, .sub], some .assignment) := by decide +kernel
  cases h : Rule.run input .standard 10 (.binary .lowest) .start with
  | mk o s' =>
    rw [h] at hops
    cases o with
    | mismatch | fatal | exhausted => cases hops
    | ok e =>
      obtain ⟨hothers, hpower⟩ := Prod.mk.inj (Option.some.inj hops)
      obtain ⟨hreads, hgrouped, hunique, -, -⟩ := binary_climbs h
      exact ⟨e, s', rfl, hothers, hpower, hreads, hgrouped, hunique⟩

end Syntree
