import Syntree.Proofs.Phrases

/-!
What a run shows beyond what it has read: where a part was given up, a longer one was not there.
-/

namespace Syntree

open Grammar

variable {α : Type} {input : Array Lexeme} {limits : Limits} {n : Nat} {s s' : State}

theorem Grammar.Repeats.last {rules : (r : Rule) → State → Reply r.Result} {g : Grammar α}
    {vs : List α} (h : Repeats input limits rules g s vs s') :
    ∃ u t, u.cursor = s'.cursor ∧ exec input limits rules g u = ⟨.mismatch, t⟩ ∧
      limits.committed u.cursor t.cursor = false := by
  induction h with
  | @stop s t failed within => exact ⟨s, t, rfl, failed, within⟩
  | next _ _ ih => exact ih

/-- A rule that has run to an end has run its production. -/
theorem Rule.run_production {r : Rule} {o : Outcome r.Result} (ho : o ≠ .exhausted)
    (h : Rule.run input limits n r s = ⟨o, s'⟩) :
    ∃ m, exec input limits (Rule.run input limits m) r.production s = ⟨o, s'⟩ := by
  cases n with
  | zero =>
    cases h
    exact absurd rfl ho
  | succ m => exact ⟨m, h⟩

/-- A reference that can be given up does not start with a name. -/
theorem reference_given_up (h : Rule.run input limits n .reference s = ⟨.mismatch, s'⟩)
    (hc : limits.committed s.cursor s'.cursor = false) : (tokenAt input s.cursor).kind ≠ .ident := by
  obtain ⟨m, h⟩ := Rule.run_production (by simp) h
  unfold Rule.production Grammar.reference at h
  obtain h | ⟨i, t, hi, h⟩ := bind_mismatch.mp h
  · cases h
  obtain ⟨rfl, rfl⟩ := here_ok.mp hi
  obtain h | ⟨x, t, hx, h⟩ := bind_mismatch.mp h
  · exact (token_mismatch.mp h).1
  obtain ⟨-, -, rfl⟩ := (token_ok (by simp)).mp hx
  have hd := committed_mono (Nat.le_succ _) (many_mismatch (Rule.run_cursor m) (map_mismatch h))
  simp [hc] at hd

/-- Constraints take every comma that a name follows. -/
theorem typeParam_greedy {v : TypeParam Nat}
    (h : Rule.run input limits n .typeParam s = ⟨.ok v, s'⟩) (hv : v.constraints ≠ [])
    (hs : (tokenAt input s'.cursor).spells "," = true) :
    (tokenAt input (s'.cursor + 1)).kind ≠ .ident := by
  obtain ⟨m, h⟩ := Rule.run_production (by simp) h
  unfold Rule.production Grammar.typeParam at h
  obtain ⟨i, t₀, -, h⟩ := bind_ok.mp h
  obtain ⟨x, t₁, -, h⟩ := bind_ok.mp h
  obtain ⟨cs, t₂, hcs, h⟩ := bind_ok.mp h
  obtain ⟨rfl, rfl⟩ := pure_ok.mp h
  rcases attempt_ok.mp hcs with ⟨vs, rfl, hvs⟩ | ⟨rfl, -⟩
  · obtain ⟨-, t₃, -, hvs⟩ := bind_ok.mp hvs
    obtain ⟨v, t₄, -, hvs⟩ := bind_ok.mp hvs
    obtain ⟨us, t₅, hu, hvs⟩ := bind_ok.mp hvs
    obtain ⟨-, rfl⟩ := pure_ok.mp hvs
    obtain ⟨u, t, hut, hm, hc⟩ := (many_ok hu).last
    rw [← hut] at hs ⊢
    rcases bind_mismatch.mp hm with hm | ⟨_, u', hl, hm⟩
    · rw [(literal_mismatch.mp hm).1] at hs
      cases hs
    · obtain ⟨-, rfl⟩ := literal_ok.mp hl
      refine reference_given_up hm ?_
      cases hd : limits.committed (u.cursor + 1) t.cursor with
      | false => rfl
      | true =>
        have hd' := committed_mono (Nat.le_succ _) hd
        simp [hc] at hd'
  · exact absurd rfl hv

/-- A `return` is never given up. -/
theorem returnStmt_given_up (h : Rule.run input limits n .returnStmt s = ⟨.mismatch, s'⟩)
    (hc : limits.committed s.cursor s'.cursor = false) :
    (tokenAt input s.cursor).spells "return" = false := by
  obtain ⟨m, h⟩ := Rule.run_production (by simp) h
  unfold Rule.production Grammar.returnStmt at h
  obtain h | ⟨i, t, hi, h⟩ := bind_mismatch.mp h
  · cases h
  obtain ⟨rfl, rfl⟩ := here_ok.mp hi
  obtain h | ⟨_, t, hl, h⟩ := bind_mismatch.mp h
  · exact (literal_mismatch.mp h).1
  obtain ⟨-, rfl⟩ := literal_ok.mp hl
  have hd := committed_mono (Nat.le_succ _) (attempt_mismatch.mp (map_mismatch h)).2
  simp [hc] at hd

/-- A statement that can be given up is no expression either. -/
theorem stmt_given_up (h : Rule.run input limits n .stmt s = ⟨.mismatch, s'⟩)
    (hc : limits.committed s.cursor s'.cursor = false) :
    ∃ m t t', t.cursor = s.cursor ∧ Rule.run input limits m .expr t = ⟨.mismatch, t'⟩ := by
  obtain ⟨m, h⟩ := Rule.run_production (by simp) h
  unfold Rule.production Grammar.stmt stmtAmong at h
  obtain h | ⟨i, t, hi, h⟩ := bind_mismatch.mp h
  · cases h
  obtain ⟨rfl, rfl⟩ := here_ok.mp hi
  obtain ⟨t, t', ht, hm, -⟩ := choice_mismatch (List.mem_append_right _ (List.mem_singleton_self _)) h hc
  exact ⟨m, t, t', ht, map_mismatch hm⟩

theorem statements_mismatch
    (h : exec input limits (Rule.run input limits n) statements s = ⟨.mismatch, s'⟩) :
    limits.committed s.cursor s'.cursor = true := by
  unfold statements at h
  obtain h | ⟨vs, t, hvs, h⟩ := bind_mismatch.mp h
  · exact optionalSeparated_mismatch h
  · exact committed_mono (exec_ok_cursor (Rule.run_cursor n) hvs) (trailing_mismatch h)

/-- Statements that have read nothing were none: a statement was tried and given up. -/
theorem statements_empty {items : List (Stmt Nat)}
    (h : exec input limits (Rule.run input limits n) statements s = ⟨.ok items, s'⟩)
    (hs : s'.cursor ≤ s.cursor) :
    ∃ t, Rule.run input limits n .stmt s = ⟨.mismatch, t⟩ ∧
      limits.committed s.cursor t.cursor = false := by
  unfold statements at h
  obtain ⟨vs, t, hvs, h⟩ := bind_ok.mp h
  have hts : t.cursor ≤ s'.cursor := exec_ok_cursor (Rule.run_cursor n) h
  unfold optionalSeparated at hvs
  obtain ⟨o, t', ho, hp⟩ := bind_ok.mp hvs
  obtain ⟨-, rfl⟩ := pure_ok.mp hp
  rcases attempt_ok.mp ho with ⟨us, -, hus⟩ | ⟨-, u, hu, hc, rfl⟩
  · unfold separated at hus
    obtain ⟨v, u, hv, hus⟩ := bind_ok.mp hus
    have hvu : s.cursor < u.cursor := (Rule.run_moves (by simp) hv).1
    have hut : u.cursor ≤ t'.cursor := exec_ok_cursor (Rule.run_cursor n) hus
    omega
  · rcases separated_mismatch (Rule.run_cursor n) hu with hm | hm
    · exact ⟨u, hm, hc⟩
    · rw [hc] at hm
      cases hm

/-- With one token of lookahead, a block that can be given up behind its brace holds neither a
statement nor the closing brace. -/
theorem block_given_up (hl : limits.lookahead = some 1)
    (h : Rule.run input limits n .block s = ⟨.mismatch, s'⟩)
    (hc : limits.committed s.cursor s'.cursor = false)
    (hb : (tokenAt input s.cursor).spells "\x7b" = true) :
    (tokenAt input (s.cursor + 1)).spells "\x7d" = false ∧
      ∃ m t t', t.cursor = s.cursor + 1 ∧ Rule.run input limits m .expr t = ⟨.mismatch, t'⟩ := by
  obtain ⟨m, h⟩ := Rule.run_production (by simp) h
  unfold Rule.production Grammar.block at h
  obtain h | ⟨i, t, hi, h⟩ := bind_mismatch.mp h
  · cases h
  obtain ⟨rfl, rfl⟩ := here_ok.mp hi
  obtain h | ⟨_, t, hbrace, h⟩ := bind_mismatch.mp h
  · rw [(literal_mismatch.mp h).1] at hb
    cases hb
  obtain ⟨-, rfl⟩ := literal_ok.mp hbrace
  obtain h | ⟨items, t, hitems, h⟩ := bind_mismatch.mp h
  · obtain ⟨t, ht, rfl⟩ := nested_mismatch h
    have hd := committed_mono (Nat.le_succ _) (statements_mismatch ht)
    simp [hc] at hd
  obtain ⟨u, hu, rfl⟩ := nested_ok hitems
  obtain h | ⟨_, t, -, h⟩ := bind_mismatch.mp h
  · obtain ⟨hclose, rfl⟩ := literal_mismatch.mp h
    have hcu : u.cursor ≤ s.cursor + 1 := (committed_one hl).mp hc
    have hle : s.cursor + 1 ≤ u.cursor := exec_ok_cursor (Rule.run_cursor m) hu
    have hcursor : u.cursor = s.cursor + 1 := by omega
    obtain ⟨t, ht, hct⟩ := statements_empty hu hcu
    obtain ⟨k, t₁, t₂, h₁, h₂⟩ := stmt_given_up ht hct
    refine ⟨?_, k, t₁, t₂, h₁, h₂⟩
    rwa [← hcursor]
  · cases h

/-- A literal in braces starts with a comma, is closed at once, or holds an expression. -/
theorem dictOrSetLiteral_second {v : DictOrSetLiteral Nat}
    (h : Rule.run input limits n .dictOrSetLiteral s = ⟨.ok v, s'⟩) :
    (tokenAt input (s.cursor + 1)).spells "," = true ∨
      (tokenAt input (s.cursor + 1)).spells "\x7d" = true ∨
      ∃ m t e t', t.cursor = s.cursor + 1 ∧ Rule.run input limits m .expr t = ⟨.ok e, t'⟩ := by
  obtain ⟨m, h⟩ := Rule.run_production (by simp) h
  unfold Rule.production Grammar.dictOrSetLiteral listed optionalSeparated at h
  obtain ⟨i, t, hi, h⟩ := bind_ok.mp h
  obtain ⟨rfl, rfl⟩ := here_ok.mp hi
  obtain ⟨vs, t, h, -⟩ := bind_ok.mp h
  obtain ⟨_, t₁, hopen, h⟩ := bind_ok.mp h
  obtain ⟨-, rfl⟩ := literal_ok.mp hopen
  obtain ⟨items, t₂, hitems, h⟩ := bind_ok.mp h
  obtain ⟨b, t₃, hb, h⟩ := bind_ok.mp h
  obtain ⟨_, t₄, hclose, -⟩ := bind_ok.mp h
  obtain ⟨o, t₅, ho, hp⟩ := bind_ok.mp hitems
  obtain ⟨-, rfl⟩ := pure_ok.mp hp
  rcases attempt_ok.mp ho with ⟨us, -, hus⟩ | ⟨-, u, -, -, rfl⟩
  · obtain ⟨a, t₆, ha, -⟩ := bind_ok.mp hus
    obtain ⟨k, hentry⟩ := Rule.run_production (by simp) ha
    unfold Rule.production Grammar.entry at hentry
    obtain ⟨i, t₇, hi, hentry⟩ := bind_ok.mp hentry
    obtain ⟨-, rfl⟩ := here_ok.mp hi
    obtain ⟨e, t₈, he, -⟩ := bind_ok.mp hentry
    exact .inr (.inr ⟨k, _, e, t₈, rfl, he⟩)
  · rcases optional_ok hb with ⟨-, hcomma, -⟩ | ⟨-, -, hcursor⟩
    · exact .inl hcomma
    · have hbrace := (literal_ok.mp hclose).1
      rw [hcursor] at hbrace
      exact .inr (.inl hbrace)

/-- An expression that starts with a brace starts with a literal in braces. -/
theorem expr_brace {e : Expr Nat} (hl : (tokenAt input s.cursor).Lawful)
    (hb : (tokenAt input s.cursor).spells "\x7b" = true)
    (h : Rule.run input limits n .expr s = ⟨.ok e, s'⟩) :
    ∃ m t v t', t.cursor = s.cursor ∧
      Rule.run input limits m .dictOrSetLiteral t = ⟨.ok v, t'⟩ := by
  have hk : (tokenAt input s.cursor).kind = .punct := hl.kind_eq hb
  have hs {text : String} (ht : text ≠ "\x7b") : (tokenAt input s.cursor).spells text = false := by
    cases hc : (tokenAt input s.cursor).spells text with
    | false => rfl
    | true => exact absurd (Lexeme.spells_unique hc hb) ht
  obtain ⟨m₁, h₁⟩ := Rule.run_production (by simp) h
  obtain ⟨t₁, h₁, -⟩ := nested_ok h₁
  obtain ⟨m₂, h₂⟩ := Rule.run_production (by simp) h₁
  obtain ⟨u, t₂, h₂, -⟩ := bind_ok.mp h₂
  obtain ⟨m₃, h₃⟩ := Rule.run_production (by simp) h₂
  obtain ⟨k, t, v, t', ht, hv⟩ : ∃ k t v t', t.cursor = s.cursor ∧
      Rule.run input limits k .terminal t = ⟨.ok v, t'⟩ := by
    unfold Rule.production Grammar.unary at h₃
    obtain ⟨g, hg, t, ht, h₃⟩ := choice_ok h₃
    simp only [List.mem_cons, List.not_mem_nil, or_false] at hg
    rcases hg with rfl | rfl
    · obtain ⟨i, t₃, hi, h₃⟩ := bind_ok.mp h₃
      obtain ⟨-, rfl⟩ := here_ok.mp hi
      obtain ⟨sign, t₄, hsign, -⟩ := bind_ok.mp h₃
      have hm := (expect_ok.mp hsign).1
      simp [unaryOperators, Expectation.met, Op.spelling, ht, hs] at hm
    · obtain ⟨v, t₄, hv, -⟩ := bind_ok.mp h₃
      exact ⟨m₃, t, v, t₄, ht, hv⟩
  obtain ⟨m₄, h₄⟩ := Rule.run_production (by simp) hv
  unfold Rule.production Grammar.terminal at h₄
  obtain ⟨i, t₄, hi, h₄⟩ := bind_ok.mp h₄
  obtain ⟨-, rfl⟩ := here_ok.mp hi
  obtain ⟨g, hg, t₅, ht₅, h₄⟩ := choice_ok h₄
  rw [ht] at ht₅
  simp only [List.mem_cons, List.not_mem_nil, or_false] at hg
  rcases hg with rfl | rfl | rfl | rfl | rfl
  all_goals obtain ⟨w, t₆, hw, -⟩ := bind_ok.mp h₄
  · have hw := Rule.run_starts hw
    simp [Rule.starts, ht₅, hs] at hw
  · exact ⟨m₄, t₅, w, t₆, ht₅, hw⟩
  · have hw := (literal_ok.mp hw).1
    simp [ht₅, hs] at hw
  · have hw := Rule.run_starts hw
    simp [Rule.starts, ht₅, hk] at hw
  · have hw := Rule.run_starts hw
    simp [Rule.starts, ht₅, hk] at hw

/-- What an expression that stands as a statement at index `i` starts with. -/
theorem exprStmt_opens {e : Expr Nat} {i : Nat} {t₁ t₂ t₃ t₄ : State} (hi : LawfulInput input)
    (hret : Rule.run input limits n .returnStmt t₁ = ⟨.mismatch, t₂⟩) (h₁ : t₁.cursor = i)
    (hc : limits.committed i t₂.cursor = false)
    (hblock : Rule.run input limits n .block t₃ = ⟨.mismatch, t₄⟩) (h₃ : t₃.cursor = i)
    (hc' : limits.committed i t₄.cursor = false)
    (h : Rule.run input limits n .expr s = ⟨.ok e, s'⟩) (hs : s.cursor = i) :
    limits.opens (tokenAt input i) (tokenAt input (i + 1)) := by
  constructor
  · rw [← h₁] at hc ⊢
    exact returnStmt_given_up hret hc
  · intro hl hb
    rw [← h₃] at hc'
    obtain ⟨hclose, k, t, t', ht, hm⟩ := block_given_up hl hblock hc' (by rwa [h₃])
    rw [h₃] at hclose ht
    obtain ⟨k', u, v, u', hu, hv⟩ := expr_brace (hi.lawful _) (by rwa [hs]) h
    rw [hs] at hu
    rcases dictOrSetLiteral_second hv with hcomma | hbrace | ⟨k'', w, e', w', hw, he⟩
    · rwa [hu] at hcomma
    · rw [hu, hclose] at hbrace
      cases hbrace
    · -- an expression was tried here before, and was given up
      have ha : Agree (Rule.run input limits k .expr t) (Rule.run input limits k'' .expr w) :=
        Rule.run_agree k k'' .expr (by rw [ht, hw, hu])
      rw [hm, he] at ha
      cases ha

theorem operation_ok {min : Power} {left : Expr Nat} {o : Option (Expr Nat)}
    {rules : (r : Rule) → State → Reply r.Result}
    (h : exec input limits rules (operation min left) s = ⟨.ok o, s'⟩) :
    (o = none ∧ s' = s ∧ ∀ op p, (tokenAt input s.cursor).binaryOperator? = some (op, p) →
      p.rank ≤ min.rank) ∨
    ∃ op p right, o = some (.binary left.pos left op right) ∧
      (tokenAt input s.cursor).binaryOperator? = some (op, p) ∧ min.rank < p.rank ∧
      rules (.binary p.rightOperand) { s with cursor := s.cursor + 1 } = ⟨.ok right, s'⟩ := by
  obtain ⟨q, t, hq, hnext⟩ := bind_ok.mp h
  rcases operatorAbove_ok hq with ⟨rfl, rfl, hn⟩ | ⟨op, p, rfl, hp, hr, rfl⟩
  · obtain ⟨rfl, rfl⟩ := pure_ok.mp hnext
    exact .inl ⟨rfl, rfl, hn⟩
  · obtain ⟨right, t', hright, hnext⟩ := bind_ok.mp hnext
    obtain ⟨rfl, rfl⟩ := pure_ok.mp hnext
    exact .inr ⟨op, p, right, rfl, hp, hr, hright⟩

/-- Operands end where no operator follows that binds tighter than asked for. -/
theorem binary_stops {min : Power} {e : Expr Nat}
    (h : Rule.run input limits n (.binary min) s = ⟨.ok e, s'⟩) :
    ∀ op p, (tokenAt input s'.cursor).binaryOperator? = some (op, p) → p.rank ≤ min.rank := by
  obtain ⟨m, h⟩ := Rule.run_production (by simp) h
  rw [Rule.production_binary] at h
  obtain ⟨u, t, -, h⟩ := bind_ok.mp h
  obtain ⟨t', -, hlast⟩ := iterate_ok (P := fun _ _ => True) (fun _ _ _ _ _ _ => trivial) _ trivial h
  rcases operation_ok hlast with ⟨-, rfl, hn⟩ | ⟨_, _, _, hs, -⟩
  · exact hn
  · cases hs

end Syntree
