import Syntree.Grammar.Run

/-!
How the parts of a grammar run: from a run that has read a value, what its parts have read, and from
a part that was found absent, the run that failed.
-/

namespace Syntree

theorem Lexeme.kind_ne_eof_of_spells {l : Lexeme} {text : String} (h : l.spells text = true) :
    l.kind ≠ .eof := by
  intro hk
  simp [Lexeme.spells, hk] at h

theorem Lexeme.kind_of_binaryOperator {l : Lexeme} {op : Op} {p : Power}
    (h : l.binaryOperator? = some (op, p)) : l.kind = .operator := by
  unfold Lexeme.binaryOperator? at h
  split at h
  · assumption
  · cases h

theorem Lexeme.power_of_binaryOperator {l : Lexeme} {op : Op} {p : Power}
    (h : l.binaryOperator? = some (op, p)) : op.power? = some p := by
  unfold Lexeme.binaryOperator? at h
  split at h
  · simp only [Option.bind_eq_some_iff, Option.map_eq_some_iff, Prod.mk.injEq] at h
    obtain ⟨op', -, p', hp, rfl, rfl⟩ := h
    exact hp
  · cases h

namespace Grammar

variable {α β : Type} {input : Array Lexeme} {limits : Limits}
  {rules : (r : Rule) → State → Reply r.Result} {s s' : State}

theorem exec_bind (g : Grammar β) (f : β → Grammar α) (s : State) :
    exec input limits rules (g >>= f) s =
      (exec input limits rules g s).andThen fun v t => exec input limits rules (f v) t := rfl

theorem exec_orElse (first second : Grammar α) (s : State) :
    exec input limits rules (orElse first second) s =
      (exec input limits rules first s).orElse limits s.cursor fun t =>
        exec input limits rules second t := rfl

theorem exec_call (r : Rule) (s : State) :
    exec input limits rules (call r) s = rules r s := rfl

theorem pure_ok {u v : α} :
    exec input limits rules (pure u) s = ⟨.ok v, s'⟩ ↔ u = v ∧ s = s' := by
  change (⟨.ok u, s⟩ : Reply α) = ⟨.ok v, s'⟩ ↔ _
  simp

theorem here_ok {i : Nat} :
    exec input limits rules here s = ⟨.ok i, s'⟩ ↔ s.cursor = i ∧ s = s' := by
  change (⟨.ok s.cursor, s⟩ : Reply Nat) = ⟨.ok i, s'⟩ ↔ _
  simp

theorem here_bind (f : Nat → Grammar α) (s : State) :
    exec input limits rules (here >>= f) s = exec input limits rules (f s.cursor) s := rfl

/-- A value that was read by two parts was read by the one after the other. -/
theorem bind_ok {g : Grammar β} {f : β → Grammar α} {v : α} :
    exec input limits rules (g >>= f) s = ⟨.ok v, s'⟩ ↔
      ∃ u t, exec input limits rules g s = ⟨.ok u, t⟩ ∧
        exec input limits rules (f u) t = ⟨.ok v, s'⟩ := by
  rw [exec_bind]
  cases hg : exec input limits rules g s with
  | mk o t =>
    cases o <;> simp only [Reply.andThen, Reply.mk.injEq, Outcome.ok.injEq, reduceCtorEq,
      false_and, exists_false, and_assoc, exists_eq_left', exists_and_left]

theorem bind_mismatch {g : Grammar β} {f : β → Grammar α} :
    exec input limits rules (g >>= f) s = ⟨.mismatch, s'⟩ ↔
      exec input limits rules g s = ⟨.mismatch, s'⟩ ∨
        ∃ u t, exec input limits rules g s = ⟨.ok u, t⟩ ∧
          exec input limits rules (f u) t = ⟨.mismatch, s'⟩ := by
  rw [exec_bind]
  cases hg : exec input limits rules g s with
  | mk o t =>
    cases o <;> simp only [Reply.andThen, Reply.mk.injEq, Outcome.ok.injEq, reduceCtorEq,
      false_and, exists_false, and_assoc, exists_eq_left', exists_and_left, true_and, or_false,
      false_or]

theorem map_mismatch {g : Grammar β} {f : β → α}
    (h : exec input limits rules (g >>= fun v => pure (f v)) s = ⟨.mismatch, s'⟩) :
    exec input limits rules g s = ⟨.mismatch, s'⟩ := by
  rcases bind_mismatch.mp h with h | ⟨u, t, -, h⟩
  · exact h
  · cases h

/-- The second alternative is reached only after the first has failed within the lookahead. -/
theorem orElse_ok {first second : Grammar α} {v : α} :
    exec input limits rules (orElse first second) s = ⟨.ok v, s'⟩ ↔
      exec input limits rules first s = ⟨.ok v, s'⟩ ∨
        ∃ t, exec input limits rules first s = ⟨.mismatch, t⟩ ∧
          limits.committed s.cursor t.cursor = false ∧
          exec input limits rules second { t with cursor := s.cursor } = ⟨.ok v, s'⟩ := by
  rw [exec_orElse]
  cases hf : exec input limits rules first s with
  | mk o t =>
    cases o with
    | mismatch => cases hc : limits.committed s.cursor t.cursor <;> simp [Reply.orElse, hc]
    | ok | fatal | exhausted => simp [Reply.orElse]

theorem orElse_mismatch {first second : Grammar α} :
    exec input limits rules (orElse first second) s = ⟨.mismatch, s'⟩ ↔
      (exec input limits rules first s = ⟨.mismatch, s'⟩ ∧
        limits.committed s.cursor s'.cursor = true) ∨
      ∃ t, exec input limits rules first s = ⟨.mismatch, t⟩ ∧
        limits.committed s.cursor t.cursor = false ∧
        exec input limits rules second { t with cursor := s.cursor } = ⟨.mismatch, s'⟩ := by
  rw [exec_orElse]
  cases hf : exec input limits rules first s with
  | mk o t =>
    cases o with
    | mismatch =>
      cases hc : limits.committed s.cursor t.cursor <;> simp [Reply.orElse, hc]
      · rintro rfl h
        simp [hc] at h
      · rintro rfl
        exact hc
    | ok | fatal | exhausted => simp [Reply.orElse]

theorem fail_ok {v : α} : exec input limits rules fail s ≠ ⟨.ok v, s'⟩ := by
  change (⟨.mismatch, s⟩ : Reply α) ≠ ⟨.ok v, s'⟩
  simp

theorem choice_cons_ok {g : Grammar α} {gs : List (Grammar α)} {v : α} :
    exec input limits rules (choice (g :: gs)) s = ⟨.ok v, s'⟩ ↔
      exec input limits rules g s = ⟨.ok v, s'⟩ ∨
        ∃ t, exec input limits rules g s = ⟨.mismatch, t⟩ ∧
          limits.committed s.cursor t.cursor = false ∧
          exec input limits rules (choice gs) { t with cursor := s.cursor } = ⟨.ok v, s'⟩ :=
  orElse_ok

theorem choice_nil_ok {v : α} : exec input limits rules (choice []) s ≠ ⟨.ok v, s'⟩ :=
  fail_ok

/-- An absent part has failed within the lookahead, and the cursor is back at its start. -/
theorem attempt_ok {g : Grammar α} {o : Option α} :
    exec input limits rules (attempt g) s = ⟨.ok o, s'⟩ ↔
      (∃ v, o = some v ∧ exec input limits rules g s = ⟨.ok v, s'⟩) ∨
        o = none ∧ ∃ t, exec input limits rules g s = ⟨.mismatch, t⟩ ∧
          limits.committed s.cursor t.cursor = false ∧ s' = { t with cursor := s.cursor } := by
  unfold attempt
  rw [orElse_ok]
  simp only [bind_ok, bind_mismatch, pure_ok]
  constructor
  · rintro (⟨v, t, hg, rfl, rfl⟩ | ⟨t, hg, hc, rfl, rfl⟩)
    · exact .inl ⟨v, rfl, hg⟩
    · exact .inr ⟨rfl, t, map_mismatch (bind_mismatch.mpr hg), hc, rfl⟩
  · rintro (⟨v, rfl, hg⟩ | ⟨rfl, t, hg, hc, rfl⟩)
    · exact .inl ⟨v, s', hg, rfl, rfl⟩
    · exact .inr ⟨t, .inl hg, hc, rfl, rfl⟩

/-- A part that may be absent fails only if it has read too much to be given up. -/
theorem attempt_mismatch {g : Grammar α} :
    exec input limits rules (attempt g) s = ⟨.mismatch, s'⟩ ↔
      exec input limits rules g s = ⟨.mismatch, s'⟩ ∧
        limits.committed s.cursor s'.cursor = true := by
  unfold attempt
  rw [orElse_mismatch, bind_mismatch]
  constructor
  · rintro (⟨hg | ⟨u, t, -, h⟩, hc⟩ | ⟨t, -, -, h⟩)
    · exact ⟨hg, hc⟩
    · cases h
    · cases h
  · rintro ⟨hg, hc⟩
    exact .inl ⟨.inl hg, hc⟩

theorem committed_mono {start start' cursor : Nat} (hs : start' ≤ start)
    (hc : limits.committed start cursor = true) : limits.committed start' cursor = true := by
  unfold Limits.committed at hc ⊢
  cases hl : limits.lookahead with
  | none => simp [hl] at hc
  | some n =>
    simp only [hl, Option.any_some, decide_eq_true_eq] at hc ⊢
    omega

/-- Moving over the current token, unless it is the end of the input. -/
theorem step_state {s : State} (hk : (tokenAt input s.cursor).kind ≠ .eof) :
    step input s = ⟨.ok (tokenAt input s.cursor), { s with cursor := s.cursor + 1 }⟩ := by
  simp [step, hk]

theorem expect_ok {es : List Expectation} {l : Lexeme} :
    exec input limits rules (expect es) s = ⟨.ok l, s'⟩ ↔
      es.any (·.met (tokenAt input s.cursor)) = true ∧ step input s = ⟨.ok l, s'⟩ := by
  change (if es.any (·.met (tokenAt input s.cursor)) then step input s
    else ⟨.mismatch, s.expecting es⟩) = _ ↔ _
  split <;> simp [*]

theorem expect_mismatch {es : List Expectation} :
    exec input limits rules (expect es) s = ⟨.mismatch, s'⟩ ↔
      es.any (·.met (tokenAt input s.cursor)) = false ∧ s' = s.expecting es := by
  change (if es.any (·.met (tokenAt input s.cursor)) then step input s
    else ⟨.mismatch, s.expecting es⟩) = _ ↔ _
  split <;> simp [*, step, eq_comm]

/-- A spelling that was read stood under the cursor, and the cursor has moved over it. -/
theorem literal_ok {text : String} {u : Unit} :
    exec input limits rules (literal text) s = ⟨.ok u, s'⟩ ↔
      (tokenAt input s.cursor).spells text = true ∧ s' = { s with cursor := s.cursor + 1 } := by
  unfold literal
  simp only [bind_ok, pure_ok, expect_ok, List.any_cons, List.any_nil, Bool.or_false,
    Expectation.met]
  constructor
  · rintro ⟨l, t, ⟨hl, ht⟩, -, rfl⟩
    rw [step_state (Lexeme.kind_ne_eof_of_spells hl)] at ht
    cases ht
    exact ⟨hl, rfl⟩
  · rintro ⟨hl, rfl⟩
    exact ⟨_, _, ⟨hl, step_state (Lexeme.kind_ne_eof_of_spells hl)⟩, trivial, rfl⟩

theorem literal_mismatch {text : String} :
    exec input limits rules (literal text) s = ⟨.mismatch, s'⟩ ↔
      (tokenAt input s.cursor).spells text = false ∧ s' = s.expecting [.literal text] := by
  unfold literal
  simp only [bind_mismatch, expect_mismatch, List.any_cons, List.any_nil, Bool.or_false,
    Expectation.met]
  constructor
  · rintro (h | ⟨l, t, -, h⟩)
    · exact h
    · cases h
  · exact .inl

theorem token_ok {kind : TokenKind} {v : String} (hk : kind ≠ .eof) :
    exec input limits rules (token kind) s = ⟨.ok v, s'⟩ ↔
      (tokenAt input s.cursor).kind = kind ∧ v = (tokenAt input s.cursor).value ∧
        s' = { s with cursor := s.cursor + 1 } := by
  unfold token
  simp only [bind_ok, pure_ok, expect_ok, List.any_cons, List.any_nil, Bool.or_false,
    Expectation.met, beq_iff_eq]
  constructor
  · rintro ⟨l, t, ⟨hl, ht⟩, rfl, rfl⟩
    rw [step_state (hl ▸ hk)] at ht
    cases ht
    exact ⟨hl, rfl, rfl⟩
  · rintro ⟨hl, rfl, rfl⟩
    exact ⟨_, _, ⟨hl, step_state (hl ▸ hk)⟩, rfl, rfl⟩

theorem token_mismatch {kind : TokenKind} :
    exec input limits rules (token kind) s = ⟨.mismatch, s'⟩ ↔
      (tokenAt input s.cursor).kind ≠ kind ∧ s' = s.expecting [.kind kind] := by
  unfold token
  simp only [bind_mismatch, expect_mismatch, List.any_cons, List.any_nil, Bool.or_false,
    Expectation.met, beq_eq_false_iff_ne]
  constructor
  · rintro (h | ⟨l, t, -, h⟩)
    · exact h
    · cases h
  · exact .inl

/-- One level deeper the same is read from the same place. -/
theorem nested_ok {g : Grammar α} {v : α}
    (h : exec input limits rules (nested g) s = ⟨.ok v, s'⟩) :
    ∃ t, exec input limits rules g { s with depth := s.depth + 1 } = ⟨.ok v, t⟩ ∧
      s' = { t with depth := t.depth - 1 } := by
  unfold exec at h
  split at h
  · cases h
  · cases hg : exec input limits rules g { s with depth := s.depth + 1 } with
    | mk o t =>
      simp only [hg, Reply.mk.injEq] at h
      exact ⟨t, by simp [h.1], h.2.symm⟩

theorem nested_mismatch {g : Grammar α}
    (h : exec input limits rules (nested g) s = ⟨.mismatch, s'⟩) :
    ∃ t, exec input limits rules g { s with depth := s.depth + 1 } = ⟨.mismatch, t⟩ ∧
      s' = { t with depth := t.depth - 1 } := by
  unfold exec at h
  split at h
  · cases h
  · cases hg : exec input limits rules g { s with depth := s.depth + 1 } with
    | mk o t =>
      simp only [hg, Reply.mk.injEq] at h
      exact ⟨t, by simp [h.1], h.2.symm⟩

theorem operatorAbove_ok {min : Power} {o : Option (Op × Power)}
    (h : exec input limits rules (operatorAbove min) s = ⟨.ok o, s'⟩) :
    (o = none ∧ s' = s ∧ ∀ op p, (tokenAt input s.cursor).binaryOperator? = some (op, p) →
      p.rank ≤ min.rank) ∨
    ∃ op p, o = some (op, p) ∧ (tokenAt input s.cursor).binaryOperator? = some (op, p) ∧
      min.rank < p.rank ∧ s' = { s with cursor := s.cursor + 1 } := by
  unfold exec at h
  split at h
  · next hn =>
    cases h
    exact .inl ⟨rfl, rfl, by simp [hn]⟩
  · next op p hp =>
    rw [step_state (by simp [Lexeme.kind_of_binaryOperator hp])] at h
    split at h
    · next hr =>
      cases h
      refine .inl ⟨rfl, rfl, ?_⟩
      intro op' p' hp'
      cases hp.symm.trans hp'
      exact hr
    · next hr =>
      cases h
      exact .inr ⟨op, p, rfl, hp, Nat.lt_of_not_le hr, rfl⟩

/-- A part run again and again: each run has read one item, and the last has failed within the
lookahead. -/
inductive Repeats (input : Array Lexeme) (limits : Limits)
    (rules : (r : Rule) → State → Reply r.Result) (g : Grammar α) :
    State → List α → State → Prop where
  | stop {s t : State} (failed : exec input limits rules g s = ⟨.mismatch, t⟩)
      (within : limits.committed s.cursor t.cursor = false) :
      Repeats input limits rules g s [] { t with cursor := s.cursor }
  | next {s t s' : State} {v : α} {vs : List α} (read : exec input limits rules g s = ⟨.ok v, t⟩)
      (rest : Repeats input limits rules g t vs s') : Repeats input limits rules g s (v :: vs) s'

/-- One round of a repetition: an item is put before those already read, or nothing is found. -/
def round (g : Grammar α) (items : List α) : Grammar (Option (List α)) := do
  return (← attempt g).map (· :: items)

theorem iterate_repeats {g : Grammar α} (n : Nat) (items : List α) {vs : List α}
    (h : iterate (fun items t => exec input limits rules (round g items) t) n items s =
      ⟨.ok vs, s'⟩) :
    ∃ us, Repeats input limits rules g s us s' ∧ vs = us.reverse ++ items := by
  induction n generalizing s items with
  | zero => cases h
  | succ n ih =>
    unfold iterate at h
    cases hr : exec input limits rules (round g items) s with
    | mk o t =>
      rw [hr] at h
      cases o with
      | mismatch | fatal | exhausted => cases h
      | ok next =>
        unfold round at hr
        obtain ⟨a, t', ha, hp⟩ := bind_ok.mp hr
        obtain ⟨rfl, rfl⟩ := pure_ok.mp hp
        rcases attempt_ok.mp ha with ⟨v, rfl, hv⟩ | ⟨rfl, t₁, hm, hc, rfl⟩
        · obtain ⟨us, hus, rfl⟩ := ih (v :: items) h
          exact ⟨v :: us, .next hv hus, by simp⟩
        · cases h
          exact ⟨[], .stop hm hc, rfl⟩

theorem many_ok {g : Grammar α} {vs : List α}
    (h : exec input limits rules (many g) s = ⟨.ok vs, s'⟩) :
    Repeats input limits rules g s vs s' := by
  unfold many at h
  obtain ⟨items, t, hl, hp⟩ := bind_ok.mp h
  obtain ⟨rfl, rfl⟩ := pure_ok.mp hp
  obtain ⟨us, hus, rfl⟩ := iterate_repeats _ [] hl
  simpa using hus

theorem iterate_of_repeats {g : Grammar α} {vs : List α} {t : State}
    (h : Repeats input limits rules g s vs t) (n : Nat)
    (items : List α) :
    let f items s := exec input limits rules (round g items) s
    iterate f n items s = ⟨.ok (vs.reverse ++ items), t⟩ ∨
      (iterate f n items s).outcome = .exhausted := by
  induction h generalizing n items with
  | @stop s t failed within =>
    cases n with
    | zero => exact .inr rfl
    | succ n =>
      have hround : exec input limits rules (round g items) s =
          ⟨.ok none, { t with cursor := s.cursor }⟩ :=
        bind_ok.mpr ⟨none, _, attempt_ok.mpr (.inr ⟨rfl, t, failed, within, rfl⟩), rfl⟩
      refine .inl ?_
      simp only [iterate, hround]
      rfl
  | @next s t s' v vs read rest ih =>
    cases n with
    | zero => exact .inr rfl
    | succ n =>
      have hround : exec input limits rules (round g items) s = ⟨.ok (some (v :: items)), t⟩ :=
        bind_ok.mpr ⟨some v, t, attempt_ok.mpr (.inl ⟨v, rfl, read⟩), rfl⟩
      simp only [iterate, hround, List.reverse_cons, List.append_assoc, List.singleton_append]
      exact ih n (v :: items)

/-- What can be repeated is repeated. -/
theorem many_of_repeats {g : Grammar α} {vs : List α} {t : State}
    (h : Repeats input limits rules g s vs t)
    (hne : (exec input limits rules (many g) s).outcome ≠ .exhausted) :
    exec input limits rules (many g) s = ⟨.ok vs, t⟩ := by
  rcases iterate_of_repeats h (input.size - s.cursor + 1) [] with hi | hi
  · exact bind_ok.mpr ⟨_, t, hi, pure_ok.mpr ⟨by simp, rfl⟩⟩
  · have hloop : (exec input limits rules (loop [] (round g)) s).outcome = .exhausted := hi
    refine absurd ?_ hne
    change (Reply.andThen (exec input limits rules (loop [] (round g)) s) _).outcome = _
    simp only [Reply.andThen, hloop]

end Grammar

/-! What the productions are made of. Where a property of grammars is shown of every production, these
equations bring each of them down to words, tokens, rules, loops and alternatives. -/

namespace Productions

open Grammar

attribute [scoped simp] Rule.production Grammar.ast Grammar.rootDecl rootDeclAmong rootAlternatives
  Grammar.importDecl Grammar.enumDecl Grammar.enumMember enumMemberAmong enumAlternatives
  Grammar.caseDecl Grammar.classDecl Grammar.classMember classMemberAmong classAlternatives
  Grammar.initialiserDecl Grammar.parameters Grammar.varDecl Grammar.varBinding Grammar.funcDecl
  Grammar.typeDecl Grammar.typeParam Grammar.stmt stmtAmong announcedStatements Grammar.block
  Grammar.returnStmt Grammar.ifStmt Grammar.forStmt Grammar.switchStmt Grammar.caseStmt
  Grammar.caseSelect Grammar.enumCase Grammar.expr Grammar.unary unaryOperators Grammar.terminal
  literalValue Grammar.reference Grammar.selector arguments Grammar.arrayLiteral
  Grammar.dictOrSetLiteral Grammar.entry statements members modifiers parameterList listed
  introduced optionalSeparated separated Grammar.optional Grammar.name

end Productions

end Syntree
