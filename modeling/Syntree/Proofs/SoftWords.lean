import Syntree.Proofs.Depth
import Syntree.Proofs.Likeness
import Syntree.Proofs.Found.Statements

/-!
A statement that can be an expression is one. Words that announce statements without being reserved
are names where no such statement stands.
-/

namespace Syntree

open Grammar

variable {α : Type} {ts : TokenStream} {r : Rule} {s t : State} {v : r.Result}

theorem TokenStream.result_refused {o : Outcome α} {f : Failure} (h : Refused (ts.result o f)) :
    ∃ limit i, o = .fatal (.nestingTooDeep limit i) := by
  obtain ⟨limit, pos, h⟩ := h
  cases o with
  | ok v => cases h
  | mismatch | exhausted =>
    cases congrArg Error.cause (Except.error.inj h)
  | fatal e =>
    cases e with
    | numberOutOfRange text i => cases congrArg Error.cause (Except.error.inj h)
    | nestingTooDeep limit' i => exact ⟨limit', i, rfl⟩

namespace Rule

/-- What a rule reads is read by a run of it. -/
theorem run_of_result (h : r.result ts s = .ok v) :
    Rule.run ts.lexemes .standard (openRules ts.lexemes) r s = ⟨.ok v, (r.reply ts s).state⟩ := by
  have ho : (r.reply ts s).outcome = .ok v := TokenStream.result_ok.mp h
  rw [← ho]
  rfl

/-- A rule reads the same from a place whatever is on record. -/
theorem runs_unrecorded (hr : r ≠ .ast) (h : r.result ts s = .ok v) (hc : t.cursor = s.cursor)
    (hd : t.depth = s.depth) : ∃ q, Runs ts .standard (.call r) (t.point []) (.ok v) q ∧
      q.cursor = (r.reply ts s).state.cursor := by
  have halike : Likeness.any.Alike
      (Rule.run ts.lexemes .standard (openRules ts.lexemes) r s) (r.reply ts t) :=
    Likeness.run_alike _ hr ⟨hc.symm, hd.symm, trivial⟩
  obtain ⟨failed, hrun⟩ := r.reply_runs ts t
  rw [run_of_result h] at halike
  unfold result at hrun
  cases ht : r.reply ts t with
  | mk o t' =>
    rw [ht] at halike hrun
    cases halike with
    | ok beside => exact ⟨_, hrun, beside.cursor.symm⟩

/-- What a rule has read from a place once, it reads there whatever is on record, unless it is
refused with more constructs open. -/
theorem run_unrecorded (hr : r ≠ .ast) (h : r.result ts s = .ok v) (hc : t.cursor = s.cursor)
    {n : Nat} {o : Outcome r.Result} {t' : State} (ho : o ≠ .exhausted)
    (ht : Rule.run ts.lexemes .standard n r t = ⟨o, t'⟩) :
    (o = .ok v ∧ t'.cursor = (r.reply ts s).state.cursor) ∨
      (Refused (ts.result o t'.failure) ∧ s.depth < t.depth) := by
  have hran := @Rule.run_ran ts .standard n r t []
  rw [ht] at hran
  obtain ⟨failed, hrun⟩ := hran ho
  -- the run with as many constructs open as before
  obtain ⟨q, hq, hcursor⟩ := runs_unrecorded (t := { t with depth := s.depth }) hr h hc rfl
  by_cases hd : t.depth ≤ s.depth
  · have hlower := hq.shallower (not_refused_ok v) hd
    obtain ⟨hv, hpoint⟩ := hrun.unique hlower
    exact .inl ⟨TokenStream.result_ok.mp hv, (congrArg Point.cursor hpoint).trans hcursor⟩
  · have hd := Nat.lt_of_not_le hd
    by_cases href : Refused (ts.result o t'.failure)
    · exact .inr ⟨href, hd⟩
    · have hlower := hrun.shallower href (Nat.le_of_lt hd)
      obtain ⟨hv, hpoint⟩ := hlower.unique hq
      exact .inl ⟨TokenStream.result_ok.mp hv, (congrArg Point.cursor hpoint).trans hcursor⟩

theorem reads_of_result (hr : r ≠ .ast) (hs : s.depth ≤ 128) (h : r.result ts s = .ok v) (n : Nat) :
    Grammar.Reads ts.lexemes .standard (128 - s.depth) (Rule.run ts.lexemes .standard n)
      (Grammar.call r) s.cursor v (r.reply ts s).state.cursor := by
  intro t hc
  rw [exec_call]
  cases ht : Rule.run ts.lexemes .standard n r t with
  | mk o t' =>
    have hran := @Rule.run_ran ts .standard n r t []
    rw [ht] at hran
    by_cases ho : o = .exhausted
    · rw [ho]
      trivial
    rcases run_unrecorded hr h hc ho ht with ⟨rfl, hcursor⟩ | ⟨href, hd⟩
    · obtain ⟨failed, hrun⟩ := hran ho
      exact ⟨hrun.onward.depth_eq, rfl, hcursor⟩
    · obtain ⟨limit, i, rfl⟩ := TokenStream.result_refused href
      exact ⟨128, rfl, by omega⟩

end Rule

/-- Where an expression is read, there is room for one construct. -/
theorem depth_of_expr {e : Expr Nat} (h : Rule.expr.result ts s = .ok e) : s.depth < 128 := by
  obtain ⟨failed, hrun⟩ := Rule.expr.reply_runs ts s
  rw [h] at hrun
  generalize (Rule.expr.reply ts s).state.point failed = q at hrun
  cases hrun with
  | act step => cases step
  | body meant inner =>
    cases meant
    cases inner with
    | act step | body step => cases step
    | nested fits => exact Limits.lt_of_exceeded? fits rfl

/-- What is read with all the room that it needs is read. -/
theorem Reply.Ends.ok_of_room {x : Reply α} {short : Prop} {d c : Nat} {u : α}
    (h : x.Ends short d fun o k => o = some u ∧ k = c) (hx : x.outcome ≠ .exhausted)
    (hs : ¬ short) : x.outcome = .ok u ∧ x.state.cursor = c := by
  cases x with
  | mk o t =>
    cases o with
    | ok w =>
      obtain ⟨-, hv, hc⟩ := h
      exact ⟨congrArg _ (Option.some.inj hv), hc⟩
    | mismatch => cases h.2.1
    | exhausted => exact absurd rfl hx
    | fatal e =>
      cases e with
      | numberOutOfRange => exact absurd h id
      | nestingTooDeep => exact absurd h hs

theorem stmt_reads_expr (hi : LawfulInput ts.lexemes) {e : Expr Nat}
    (h : Rule.expr.result ts s = .ok e)
    (brace : (ts.lexeme s.cursor).spells "\x7b" = false)
    (ret : (ts.lexeme s.cursor).spells "return" = false)
    (second : (ts.lexeme s.cursor).spells "class" = true →
      (ts.lexeme (s.cursor + 1)).kind ≠ .ident) (n : Nat) :
    Grammar.Reads ts.lexemes .standard (128 - s.depth) (Rule.run ts.lexemes .standard n)
      (Grammar.call .stmt) s.cursor (.expression s.cursor e)
      (Rule.expr.reply ts s).state.cursor := by
  have hdepth := depth_of_expr h
  obtain ⟨room, hroom⟩ : ∃ room, 128 - s.depth = room + 1 := ⟨127 - s.depth, by omega⟩
  have hexpr := Rule.reads_of_result (by simp) (Nat.le_of_lt hdepth) h
  have hfirst : (ts.lexeme s.cursor).startsExpr = true :=
    Rule.run_starts (Rule.run_of_result h)
  rw [hroom] at hexpr ⊢
  exact reads_rule (fun n => reads_bind (reads_here _) (reads_choice
    (announced_fails hi rfl n hfirst ret (fails_call n brace) second)
    (reads_bind (hexpr n) (reads_pure _ _)))) n

/-- For the tokens of a source, from any state. Where an expression is read, and no brace, no
`return` and no `class` with a name behind it stands, a statement is read, and it is that expression
and ends where it does. -/
theorem stmt_of_expr {file source : String} {tokens : List Token}
    (h : tokenize file source = .ok tokens) (s : State) {e : Expr Nat} :
    let ts := TokenStream.ofTokens tokens
    Rule.expr.result ts s = .ok e → ts.lexeme s.cursor ≠ ⟨.punct, "\x7b"⟩ →
    ts.lexeme s.cursor ≠ ⟨.ident, "return"⟩ →
    (ts.lexeme s.cursor = ⟨.ident, "class"⟩ → (ts.lexeme (s.cursor + 1)).kind ≠ .ident) →
    Rule.stmt.result ts s = .ok (.expression s.cursor e) ∧
      (Rule.stmt.reply ts s).state.cursor = (Rule.expr.reply ts s).state.cursor := by
  intro ts he hbrace hret hclass
  have hi : LawfulInput ts.lexemes := tokenize_lawful h
  have hspells {text : String} (hne : ts.lexeme s.cursor ≠ ⟨Lexical.kindOf text, text⟩) :
      (ts.lexeme s.cursor).spells text = false :=
    Bool.eq_false_iff.mpr fun hs => hne (hi.spelt hs)
  have hread := stmt_reads_expr hi he (hspells hbrace) (hspells hret)
    (fun hs => hclass (hi.spelt hs)) (openRules ts.lexemes) s rfl
  have hnever : ¬ Limits.standard.Short s.depth (128 - s.depth) := by
    rintro ⟨n, hn, hlt⟩
    cases hn
    have hdepth := depth_of_expr he
    omega
  obtain ⟨hok, hcursor⟩ := hread.ok_of_room (Rule.run_openRules .stmt s) hnever
  exact ⟨TokenStream.result_ok.mpr hok, hcursor⟩

/-- Three words in the place of names, each at the start of a statement. -/
theorem stmt_of_expr_soft :
    ∃ tokens, tokenize "f" "class = init; else(); init" = .ok tokens ∧
      let ts := TokenStream.ofTokens tokens
      ∀ i ∈ [0, 4, 8], ∃ e, Rule.expr.result ts { State.start with cursor := i } = .ok e ∧
        Rule.stmt.result ts { State.start with cursor := i } = .ok (.expression i e) := by
  have hscan : (tokenize "f" "class = init; else(); init").isOk = true := by decide +kernel
  have hread : (tokenize "f" "class = init; else(); init").toOption.any (fun tokens =>
      let ts := TokenStream.ofTokens tokens
      [0, 4, 8].all fun i =>
        (Rule.expr.result ts { State.start with cursor := i }).isOk &&
          (ts.lexeme i).kind == .ident && (ts.lexeme i).value != "return" &&
            (ts.lexeme (i + 1)).kind != .ident) = true := by decide +kernel
  obtain ⟨tokens, ht⟩ := Except.exists_of_isOk hscan
  rw [ht] at hread
  refine ⟨tokens, ht, fun i hi => ?_⟩
  have hi := List.all_eq_true.mp hread i hi
  simp only [Bool.and_eq_true, beq_iff_eq, bne_iff_ne] at hi
  obtain ⟨⟨⟨hok, hkind⟩, hvalue⟩, hnext⟩ := hi
  obtain ⟨e, he⟩ := Except.exists_of_isOk hok
  have hbrace : (TokenStream.ofTokens tokens).lexeme i ≠ ⟨.punct, "\x7b"⟩ := by
    intro h
    rw [h] at hkind
    cases hkind
  have hret : (TokenStream.ofTokens tokens).lexeme i ≠ ⟨.ident, "return"⟩ :=
    fun h => hvalue (by rw [h])
  exact ⟨e, he, (stmt_of_expr ht _ he hbrace hret fun _ => hnext).1⟩

end Syntree
