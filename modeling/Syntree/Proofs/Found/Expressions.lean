import Syntree.Proofs.Found

/-!
Expressions are found. Their operators are climbed one after the other, although a derivation has
the last one on top: what a loop has found so far is the left operand of what comes next.
-/

namespace Syntree

open Grammar

variable {limits₀ limits : Limits} {room : Nat} {input : Array Lexeme} {i j k : Nat} {min : Power}

theorem reads_operatorAbove_none {rules : (r : Rule) → State → Reply r.Result}
    (h : ∀ op p, (tokenAt input j).binaryOperator? = some (op, p) → p.rank ≤ min.rank) :
    Reads input limits (room + 1) rules (operatorAbove min) j none j := by
  rintro s rfl
  unfold exec
  split
  · exact ⟨rfl, rfl, rfl⟩
  · next op p hp =>
    rw [if_pos (h op p hp)]
    exact ⟨rfl, rfl, rfl⟩

theorem reads_operatorAbove_some {rules : (r : Rule) → State → Reply r.Result} {op : Op} {p : Power}
    (found : (tokenAt input j).binaryOperator? = some (op, p)) (above : min.rank < p.rank) :
    Reads input limits (room + 1) rules (operatorAbove min) j (some (op, p)) (j + 1) := by
  rintro s rfl
  have hk : (tokenAt input s.cursor).kind ≠ .eof := by simp [Lexeme.kind_of_binaryOperator found]
  unfold exec
  simp only [found, if_neg (Nat.not_le.mpr above), step_state hk]
  exact ⟨rfl, rfl, rfl⟩

/-- The loop ends where no operator follows that binds tighter than asked for. -/
theorem climbs_stop {e : Expr Nat}
    (h : ∀ op p, (tokenAt input j).binaryOperator? = some (op, p) → p.rank ≤ min.rank) :
    Climbs limits room input min e j e j := by
  intro n m s hs
  cases m with
  | zero => trivial
  | succ m =>
    have ho : Reads input limits (room + 1) (Rule.run input limits n) (operation min e) j none j :=
      reads_bind (reads_operatorAbove_none h) (reads_pure _ _)
    refine (ho s hs).andThen (fun _ h => absurd h.1 (by simp)) ?_
    rintro v t hd ⟨hv, ht⟩
    cases hv
    exact ⟨hd, rfl, ht⟩

/-- One more round of the loop takes an operator and its right operand. -/
theorem climbs_step {p : Power} {op : Op} {e b u : Expr Nat} {l : Nat}
    (found : (tokenAt input j).binaryOperator? = some (op, p)) (above : min.rank < p.rank)
    (right : ∀ n, Reads input limits (room + 1) (Rule.run input limits n)
      (call (.binary p.rightOperand)) (j + 1) b k)
    (h : Climbs limits room input min (.binary e.pos e op b) k u l) :
    Climbs limits room input min e j u l := by
  intro n m s hs
  cases m with
  | zero => trivial
  | succ m =>
    have ho : Reads input limits (room + 1) (Rule.run input limits n) (operation min e) j
        (some (.binary e.pos e op b)) k :=
      reads_bind (reads_operatorAbove_some found above) (reads_bind (right n) (reads_pure _ _))
    refine (ho s hs).andThen (fun _ h => absurd h.1 (by simp)) ?_
    rintro v t hd ⟨hv, ht⟩
    cases hv
    exact .at_depth hd (h n m t ht)

theorem found_binary {e : Expr Nat} (h : (Rule.binary min).Operands limits room input i e j) :
    (Phrase.rule (.binary min)).Found limits room input i e j := by
  refine ⟨fun hh => ?_, h⟩
  simp only [Rule.halts, Bool.and_eq_true, Bool.not_eq_true'] at hh
  have hstop : ∀ op p, (tokenAt input j).binaryOperator? = some (op, p) → p.rank ≤ min.rank := by
    intro op p hp
    simpa [hp] using hh.2
  exact h.2 hh.1 (fun op p hp => h.1 p (hstop op p hp)) e j (climbs_stop hstop)

theorem found_operand {u : Unary Nat} (part : (Phrase.rule .unary).Found limits room input i u j) :
    (Phrase.rule (.binary min)).Found limits room input i (.unary u.pos u) j := by
  refine found_binary ⟨fun _ _ => trivial, fun hs _ v k hc => reads_rule fun n => ?_⟩
  have hu := part.1 (by simp [Rule.halts, hs]) n
  exact reads_bind hu fun s hs => hc n _ s hs

/-- The power of an operator is at most one above what its right operand must exceed. -/
theorem Power.rank_le_rightOperand (p : Power) : p.rank ≤ p.rightOperand.rank + 1 := by
  cases p <;> decide

/-- A token that starts a selection is punctuation. -/
theorem kind_of_startsSelector {a : Lexeme} (ha : a.Lawful) (h : a.startsSelector = true) :
    a.kind = .punct := by
  simp only [Lexeme.startsSelector, Bool.or_eq_true] at h
  rcases h with (h | h) | h <;> exact ha.kind_eq h

theorem found_operation (hi : LawfulInput input) {p : Power} {op : Op} {a b : Expr Nat}
    (left : (Phrase.rule (.binary min)).Found limits room input i a j)
    (found : (tokenAt input j).binaryOperator? = some (op, p)) (above : min.rank < p.rank)
    (leaves : a.leaves p)
    (right : (Phrase.rule (.binary p.rightOperand)).Found limits room input (j + 1) b k) :
    (Phrase.rule (.binary min)).Found limits room input i (.binary a.pos a op b) k := by
  have hpower := Lexeme.power_of_binaryOperator found
  have hselector : (tokenAt input j).startsSelector = false := by
    cases hs : (tokenAt input j).startsSelector with
    | false => rfl
    | true =>
      have hk := kind_of_startsSelector (hi.lawful j) hs
      rw [Lexeme.kind_of_binaryOperator found] at hk
      cases hk
  refine found_binary ⟨fun q hq p' hp' => ?_, fun hs hleaves u l hc => ?_⟩
  · obtain rfl : p = p' := Option.some.inj (hpower.symm.trans hp')
    have hr := p.rank_le_rightOperand
    omega
  · -- what follows is left to this operator, so it ends the right operand
    have hstop : ∀ op' q, (tokenAt input k).binaryOperator? = some (op', q) →
        q.rank ≤ p.rightOperand.rank := fun op' q hq => hleaves op' q hq p hpower
    have hright := right.2.2 hs (fun op' q hq => right.2.1 q (hstop op' q hq)) b k (climbs_stop hstop)
    refine left.2.2 hselector (fun op' q hq => ?_) u l (climbs_step found above hright hc)
    obtain ⟨rfl, rfl⟩ := Prod.mk.inj (Option.some.inj (found.symm.trans hq))
    exact leaves

theorem found_expr {e : Expr Nat}
    (part : (Phrase.rule (.binary .lowest)).Found limits room input i e j) :
    (Phrase.rule .expr).Found limits (room + 1) input i e j := by
  refine ⟨fun hh => reads_rule fun n => ?_, trivial⟩
  have hb : (Rule.binary .lowest).halts e (tokenAt input j) (tokenAt input (j + 1)) = true := by
    simp only [Rule.halts, Lexeme.endsExpr, Bool.and_eq_true, Option.isNone_iff_eq_none] at hh ⊢
    simp [hh]
  exact reads_nested (part.1 hb n)

theorem found_prefixed {op : Op} {u : Unary Nat} (known : op ∈ unaryOperators)
    (spelt : (tokenAt input i).spells op.spelling = true)
    (operand : (Phrase.rule .unary).Found limits room input (i + 1) u j) :
    (Phrase.rule .unary).Found limits (room + 1) input i (.prefixed i op u) j := by
  refine ⟨fun hh => reads_rule fun n => ?_, trivial⟩
  have hsign : Reads input limits (room + 2) (Rule.run input limits n)
      (expect (unaryOperators.map fun op => .literal op.spelling)) i (tokenAt input i) (i + 1) := by
    refine reads_expect (List.any_eq_true.mpr ?_) (Lexeme.kind_ne_eof_of_spells spelt)
    exact ⟨.literal op.spelling, List.mem_map_of_mem known, spelt⟩
  have hop : (if (tokenAt input i).value = Op.not.spelling then Op.not else .sub) = op := by
    have hv : (tokenAt input i).value = op.spelling := by
      simp only [Lexeme.spells, Bool.and_eq_true, beq_iff_eq] at spelt
      exact spelt.2
    simp only [unaryOperators, List.mem_cons, List.not_mem_nil, or_false] at known
    rcases known with rfl | rfl
    · rw [hv, if_pos rfl]
    · rw [hv, if_neg (by decide)]
  rw [← hop]
  exact reads_choice_head (reads_bind (reads_here i) (reads_bind hsign
    (reads_bind (reads_nested (operand.1 hh n)) (reads_pure _ _))))

theorem found_terminal (hi : LawfulInput input) {t : Terminal Nat}
    (first : (tokenAt input i).startsTerminal = true)
    (part : (Phrase.rule .terminal).Found limits room input i t j) :
    (Phrase.rule .unary).Found limits room input i (.terminal t.pos t) j := by
  refine ⟨fun hh => reads_rule fun n => ?_, trivial⟩
  have hword := not_spells (hi.lawful i) first
  have hn : (unaryOperators.map fun op => Expectation.literal op.spelling).any
      (·.met (tokenAt input i)) = false := by
    simp [unaryOperators, Op.spelling, Expectation.met, hword "!" rfl, hword "-" rfl]
  exact reads_choice_tail (stops_after (reads_here i) (stops_bind (stops_expect hn))).fails
    (reads_choice_head (reads_bind (part.1 hh n) (reads_pure _ _)))

theorem found_arrayTerminal {v : ArrayLiteral Nat}
    (part : (Phrase.rule .arrayLiteral).Found limits room input i v j) :
    (Phrase.rule .terminal).Found limits room input i (.array i v) j := by
  refine ⟨fun _ => reads_rule fun n => ?_, trivial⟩
  exact reads_bind (reads_here i) (reads_choice_head (reads_bind (part.1 rfl n) (reads_pure _ _)))

theorem found_dictTerminal (hi : LawfulInput input) {v : DictOrSetLiteral Nat}
    (first : (tokenAt input i).spells "\x7b" = true)
    (part : (Phrase.rule .dictOrSetLiteral).Found limits room input i v j) :
    (Phrase.rule .terminal).Found limits room input i (.dictOrSet i v) j := by
  refine ⟨fun _ => reads_rule fun n => ?_, trivial⟩
  have ha := hi.spelt first
  exact reads_bind (reads_here i) (reads_skip ha rfl
    (reads_choice_head (reads_bind (part.1 rfl n) (reads_pure _ _))))

theorem found_parenTerminal (hi : LawfulInput input) {e : Expr Nat}
    (part : (Phrase.between "(" ")" (.rule .expr)).Found limits room input i e j) :
    (Phrase.rule .terminal).Found limits room input i (.paren i e) j := by
  refine ⟨fun _ => reads_rule fun n => ?_, trivial⟩
  obtain ⟨hopen, k, he, hclose, rfl⟩ := part
  have ha := hi.spelt hopen
  have hh : Rule.expr.halts e (tokenAt input k) (tokenAt input (k + 1)) = true := by
    rw [hi.spelt hclose]
    rfl
  exact reads_bind (reads_here i) (reads_skip ha rfl (reads_skip ha rfl (reads_choice_head
    (reads_bind (reads_literal hopen) (reads_bind (he.1 hh n)
      (reads_bind (reads_literal hclose) (reads_pure _ _)))))))

/-- A token whose kind is not that of a spelling is not so spelt. -/
theorem not_spells_of_kind {a : Lexeme} (ha : a.Lawful) {text : String}
    (h : a.kind ≠ Lexical.kindOf text) : a.spells text = false := by
  cases hs : a.spells text with
  | false => rfl
  | true => exact absurd (ha.kind_eq hs) h

/-- The terminals in brackets are passed over at a token that is no punctuation. -/
theorem reads_unbracketed (hi : LawfulInput input) {n : Nat} {gs : List (Grammar (Terminal Nat))}
    {t : Terminal Nat} (hk : (tokenAt input i).kind ≠ .punct)
    (h : Reads input limits (room + 1) (Rule.run input limits n) (choice gs) i t j) :
    Reads input limits (room + 1) (Rule.run input limits n)
      (choice ((do return .array i (← call .arrayLiteral)) ::
        (do return .dictOrSet i (← call .dictOrSetLiteral)) ::
        (do
          Grammar.literal "("
          let inner ← call .expr
          Grammar.literal ")"
          return .paren i inner) :: gs)) i t j := by
  have hword (text : String) (ht : Lexical.kindOf text = .punct) :
      (tokenAt input i).spells text = false :=
    not_spells_of_kind (hi.lawful i) (by rwa [ht])
  exact reads_skip rfl (hword "[" rfl) (reads_skip rfl (hword "\x7b" rfl)
    (reads_choice_tail (stops_bind (stops_literal (hword "(" rfl))).fails h))

theorem found_literalTerminal (hi : LawfulInput input) {v : Literal Nat}
    (first : Rule.literal.starts (tokenAt input i) = true)
    (part : (Phrase.rule .literal).Found limits room input i v j) :
    (Phrase.rule .terminal).Found limits room input i (.literal i v) j := by
  refine ⟨fun _ => reads_rule fun n => ?_, trivial⟩
  have hk : (tokenAt input i).kind ≠ .punct := by
    intro hk
    simp [Rule.starts, hk] at first
  exact reads_bind (reads_here i) (reads_unbracketed hi hk
    (reads_choice_head (reads_bind (part.1 rfl n) (reads_pure _ _))))

theorem found_referenceTerminal (hi : LawfulInput input) {v : Reference Nat}
    (first : (tokenAt input i).kind = .ident)
    (part : (Phrase.rule .reference).Found limits room input i v j) :
    (Phrase.rule .terminal).Found limits room input i (.reference i v) j := by
  refine ⟨fun hh => reads_rule fun n => ?_, trivial⟩
  have hs : Rule.literal.starts (tokenAt input i) = false := by simp [Rule.starts, first]
  exact reads_bind (reads_here i) (reads_unbracketed hi (by simp [first])
    (reads_skip rfl hs (reads_choice_head (reads_bind (part.1 hh n) (reads_pure _ _)))))

theorem found_number {x : String} {v : Decimal.Binary64}
    (part : (Phrase.token .number).Found limits room input i x j)
    (denotes : Decimal.Binary64.ofText? x.toList = some v) :
    (Phrase.rule .literal).Found limits room input i ⟨i, .number v⟩ j := by
  refine ⟨fun _ => reads_rule fun n => ?_, trivial⟩
  have hv : Reads input limits (room + 1) (Rule.run input limits n) number i v j := by
    refine reads_bind (reads_here i) (reads_bind (part trivial n) ?_)
    rw [denotes]
    exact reads_pure _ _
  exact reads_bind (reads_here i) (reads_bind (reads_choice_head
    (reads_bind hv (reads_pure _ _))) (reads_pure _ _))

theorem found_string {x : String} (first : (tokenAt input i).kind = .string)
    (part : (Phrase.token .string).Found limits room input i x j) :
    (Phrase.rule .literal).Found limits room input i ⟨i, .string x⟩ j := by
  refine ⟨fun _ => reads_rule fun n => ?_, trivial⟩
  have hn : Stops input limits (room + 1) (Rule.run input limits n) number i i :=
    stops_after (reads_here i) (stops_bind (stops_token (by simp [first])))
  exact reads_bind (reads_here i) (reads_bind (reads_choice_tail (stops_bind hn).fails
    (reads_choice_head (reads_bind (part trivial n) (reads_pure _ _)))) (reads_pure _ _))

theorem found_reference {x : String} {ss : List (Selector Nat)}
    (name : (Phrase.token .ident).Found limits room input i x j)
    (next : (Phrase.star (.rule .selector)).Found limits room input j ss k) :
    (Phrase.rule .reference).Found limits room input i ⟨i, x, ss⟩ k := by
  refine ⟨fun hh => reads_rule fun n => ?_, trivial⟩
  have hs : (Phrase.star (.rule .selector)).Halts ss (tokenAt input k) (tokenAt input (k + 1)) :=
    ⟨⟨rfl, by simpa [Rule.halts, Phrase.starts, Rule.starts] using hh⟩, fun _ _ => rfl,
      fun _ _ _ _ _ _ => rfl⟩
  exact reads_bind (reads_here i) (reads_bind (name trivial n)
    (reads_bind (reads_many (next hs n)) (reads_pure _ _)))

theorem found_memberSelector {x : String}
    (part : (Phrase.after "." (.token .ident)).Found limits room input i x j) :
    (Phrase.rule .selector).Found limits room input i (.member i x) j := by
  refine ⟨fun _ => reads_rule fun n => ?_, trivial⟩
  exact reads_bind (reads_here i) (reads_choice_head
    (reads_bind (reads_literal part.1) (reads_bind (part.2 trivial n) (reads_pure _ _))))

theorem found_indexSelector (hi : LawfulInput input) {e : Expr Nat}
    (part : (Phrase.between "[" "]" (.rule .expr)).Found limits room input i e j) :
    (Phrase.rule .selector).Found limits room input i (.index i e) j := by
  refine ⟨fun _ => reads_rule fun n => ?_, trivial⟩
  obtain ⟨hopen, k, he, hclose, rfl⟩ := part
  have hdot : (tokenAt input i).spells "." = false := by
    rw [hi.spelt hopen]
    rfl
  have hh : Rule.expr.halts e (tokenAt input k) (tokenAt input (k + 1)) = true := by
    rw [hi.spelt hclose]
    rfl
  exact reads_bind (reads_here i) (reads_choice_tail (stops_bind (stops_literal hdot)).fails
    (reads_choice_head (reads_bind (reads_literal hopen) (reads_bind (he.1 hh n)
      (reads_bind (reads_literal hclose) (reads_pure _ _))))))

theorem found_callSelector (hi : LawfulInput input) {c : Call Nat}
    (first : (tokenAt input i).spells "(" = true)
    (part : (Phrase.rule .call).Found limits room input i c j) :
    (Phrase.rule .selector).Found limits room input i (.call i c) j := by
  refine ⟨fun _ => reads_rule fun n => ?_, trivial⟩
  have hdot : (tokenAt input i).spells "." = false := by
    rw [hi.spelt first]
    rfl
  have hbracket : (tokenAt input i).spells "[" = false := by
    rw [hi.spelt first]
    rfl
  exact reads_bind (reads_here i) (reads_choice_tail (stops_bind (stops_literal hdot)).fails
    (reads_choice_tail (stops_bind (stops_literal hbracket)).fails
      (reads_choice_head (reads_bind (part.1 rfl n) (reads_pure _ _)))))

theorem found_call {vs : List (Expr Nat)}
    (part : (Phrase.listed "(" ")" (.rule .expr)).Found limits room input i vs j) :
    (Phrase.rule .call).Found limits room input i ⟨i, vs⟩ j := by
  have hh : (Phrase.listed "(" ")" (.rule .expr)).Halts vs (tokenAt input j)
      (tokenAt input (j + 1)) :=
    halts_listed rfl (by decide) (by decide) fun _ _ => ⟨rfl, rfl⟩
  exact ⟨fun _ => reads_rule fun n => reads_bind (reads_here i)
    (reads_bind (part hh n) (reads_pure _ _)), trivial⟩

theorem found_arrayLiteral {vs : List (Expr Nat)}
    (part : (Phrase.listed "[" "]" (.rule .expr)).Found limits room input i vs j) :
    (Phrase.rule .arrayLiteral).Found limits room input i ⟨i, vs⟩ j := by
  have hh : (Phrase.listed "[" "]" (.rule .expr)).Halts vs (tokenAt input j)
      (tokenAt input (j + 1)) :=
    halts_listed rfl (by decide) (by decide) fun _ _ => ⟨rfl, rfl⟩
  exact ⟨fun _ => reads_rule fun n => reads_bind (reads_here i)
    (reads_bind (part hh n) (reads_pure _ _)), trivial⟩

theorem found_dictOrSetLiteral {vs : List (Entry Nat)}
    (part : (Phrase.listed "\x7b" "\x7d" (.rule .entry)).Found limits room input i vs j) :
    (Phrase.rule .dictOrSetLiteral).Found limits room input i ⟨i, vs⟩ j := by
  have hh : (Phrase.listed "\x7b" "\x7d" (.rule .entry)).Halts vs (tokenAt input j)
      (tokenAt input (j + 1)) :=
    halts_listed rfl (by decide) (by decide) fun _ _ => ⟨rfl, rfl⟩
  exact ⟨fun _ => reads_rule fun n => reads_bind (reads_here i)
    (reads_bind (part hh n) (reads_pure _ _)), trivial⟩

theorem found_entry (hi : LawfulInput input) {a : Expr Nat} {b : Option (Expr Nat)} {w : List Slot}
    (key : (Phrase.rule .expr).Found limits room input i a j)
    (derived : Derives limits₀ input (.optional (.after ":" (.rule .expr))) j w k b)
    (value : (Phrase.optional (.after ":" (.rule .expr))).Found limits room input j b k) :
    (Phrase.rule .entry).Found limits room input i ⟨i, a, b⟩ k := by
  refine ⟨fun hh => reads_rule fun n => ?_, trivial⟩
  simp only [Rule.halts, Bool.and_eq_true, Bool.not_eq_true'] at hh
  have ha : Rule.expr.halts a (tokenAt input j) (tokenAt input (j + 1)) = true := by
    rcases optional_cases derived with ⟨-, rfl⟩ | hm
    · exact hh.1
    · rw [hi.spelt hm]
      rfl
  have hb : (Phrase.optional (.after ":" (.rule .expr))).Halts b (tokenAt input k)
      (tokenAt input (k + 1)) := by
    cases b with
    | none =>
      intro hc
      rw [hh.2] at hc
      cases hc
    | some b => exact hh.1
  exact reads_bind (reads_here i) (reads_bind (key.1 ha n)
    (reads_bind (value hb n) (reads_pure _ _)))

end Syntree
