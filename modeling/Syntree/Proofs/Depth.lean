import Syntree.Proofs.Repetition
import Syntree.Proofs.Yields

/-!
What the number of open constructs has to do with a run.

A run that reads a value opens no more constructs, along any path through what it has read, than the
limit leaves room for. Apart from that limit the number has no part in parsing: a run that the limit
does not end is the same run with fewer constructs open.
-/

namespace Syntree

/-! From a lower depth -/

namespace Point

variable {ts : TokenStream}

theorem next_relevel (p : Point) (d : Nat) :
    ({ p with depth := d } : Point).next ts = { p.next ts with depth := d } := by
  unfold next
  split <;> rfl

theorem expecting_relevel (p : Point) (es : List Expectation) (d : Nat) :
    ({ p with depth := d } : Point).expecting es = { p.expecting es with depth := d } := by
  unfold expecting
  induction es generalizing p with
  | nil => rfl
  | cons e es ih => exact ih (p.missing e)

end Point

theorem Limits.exceeded?_mono {limits : Limits} {d d' : Nat} (h : d ≤ d')
    (fits : limits.exceeded? d' = none) : limits.exceeded? d = none := by
  simp only [exceeded?, Option.filter_eq_none_iff, decide_eq_true_eq] at fits ⊢
  intro n hn hle
  exact fits n hn (Nat.le_trans hle h)

/-- Whether a result is the refusal to open one more construct. -/
def Refused {α : Type} (r : Except Error α) : Prop :=
  ∃ limit pos, r = .error ⟨.nestingTooDeep limit, pos⟩

section

variable {α β : Type} {ts : TokenStream} {limits : Limits} {g : Grammar α} {p q : Point}
  {r : Except Error α} {d : Nat}

theorem not_refused_ok (v : α) : ¬ Refused (.ok v : Except Error α) := by
  rintro ⟨limit, pos, ⟨⟩⟩

/-- What another alternative can make good is no refusal. -/
theorem not_refused_of_recoverable {e : Error} (h : e.cause.recoverable = true) :
    ¬ Refused (.error e : Except Error α) := by
  rintro ⟨limit, pos, he⟩
  rw [Except.error.inj he] at h
  cases h

/-- An error is handed on as it is. -/
theorem Refused.of_error {e : Error} (h : Refused (.error e : Except Error β)) :
    Refused (.error e : Except Error α) := by
  obtain ⟨limit, pos, he⟩ := h
  exact ⟨limit, pos, congrArg _ (Except.error.inj he)⟩

/-- No single step looks at the depth. -/
theorem Grammar.act?_relevel (h : g.act? ts p = some (r, q)) (d : Nat) :
    g.act? ts { p with depth := d } = some (r, { q with depth := d }) := by
  cases g with
  | done | here | peek | fail | reject =>
    cases h
    rfl
  | advance =>
    cases h
    simp only [act?, Point.next_relevel]
  | expect es =>
    simp only [act?, Point.next_relevel, Point.expecting_relevel] at h ⊢
    split at h
    · next hm =>
      cases h
      exact if_pos hm
    · next hm =>
      cases h
      exact if_neg hm
  | operatorAbove min =>
    simp only [act?, Point.next_relevel] at h ⊢
    split at h
    · cases h
      rfl
    · split at h
      · next hw =>
        cases h
        exact if_pos hw
      · next hw =>
        cases h
        exact if_neg hw
  | bind | orElse | loop | nested | call | observe => cases h

/-- A run that is not refused goes the same way from a lower depth. -/
theorem Runs.shallower (h : Runs ts limits g p r q) (hr : ¬ Refused r) (hd : d ≤ p.depth) :
    Runs ts limits g { p with depth := d } r { q with depth := d } := by
  induction h generalizing d with
  | act step => exact .act (Grammar.act?_relevel step d)
  | body meant _ ih => exact .body meant (ih hr hd)
  | bind first _ ihf ihr =>
    exact .bind (ihf (not_refused_ok _) hd) (ihr hr (first.onward.depth_eq ▸ hd))
  | bindError _ ih => exact .bindError (ih (mt Refused.of_error hr) hd)
  | first _ ih => exact .first (ih hr hd)
  | lost _ final ih => exact .lost (ih hr hd) final
  | commit _ recoverable past ih =>
    exact .commit (ih (not_refused_of_recoverable recoverable) hd) recoverable past
  | second failed recoverable within _ ih ihr =>
    exact .second (ih (not_refused_of_recoverable recoverable) hd) recoverable within
      (ihr hr (failed.onward.depth_eq ▸ hd))
  | loopEnd _ ih => exact .loopEnd (ih (not_refused_ok _) hd)
  | loopNext round _ ih ihr =>
    exact .loopNext (ih (not_refused_ok _) hd) (ihr hr (round.onward.depth_eq ▸ hd))
  | loopError _ ih => exact .loopError (ih (mt Refused.of_error hr) hd)
  | tooDeep => exact absurd ⟨_, _, rfl⟩ hr
  | @nested p q _ _ r fits _ ih =>
    have hfits : limits.exceeded? ({ p with depth := d } : Point).depth = none :=
      Limits.exceeded?_mono hd fits
    have hinner := ih hr (Nat.succ_le_succ hd)
    exact .nested hfits hinner

end

/-! What rules end with -/

/-- How a grammar ends from a state: with the value that it has read, or with an error. -/
def Grammar.result {α : Type} (ts : TokenStream) (g : Grammar α) (s : State) : Except Error α :=
  ts.result (g.run ts.lexemes .standard s).outcome (g.run ts.lexemes .standard s).state.failure

namespace Rule

variable (ts : TokenStream) (r : Rule) (s : State)

/-- How a rule ends from a state: with the value that it has read, or with an error. -/
def reply : Reply r.Result :=
  (Grammar.call r).run ts.lexemes .standard s

def result : Except Error r.Result :=
  ts.result (r.reply ts s).outcome (r.reply ts s).state.failure

theorem reply_runs :
    ∃ failed, Runs ts .standard (.call r) (s.point []) (r.result ts s)
      ((r.reply ts s).state.point failed) :=
  Grammar.run_ran (.call r) s [] (run_openRules r s)

end Rule

/-- For all tokens. A rule that reads a value with some constructs open leaves as many open, and
with those that it opened on the way along any path through the value there were never more than
128. So no path through a tree opens more than 128, and none is left open behind it. A list in
braces counts on a path that only gets to it. -/
theorem opened_within (T : List Token) :
    let ts := TokenStream.ofTokens T
    (∀ (r : Rule) (s : State) (v : r.Result), s.depth ≤ 128 → r.result ts s = .ok v →
      (r.reply ts s).state.depth = s.depth ∧
      ∀ ns, (r.toNode v).Path ns → s.depth + (r.levels + Node.opened ns) ≤ 128) ∧
    ∀ a, ts.tree = .ok a → ts.reply.state.depth = 0 ∧
      ∀ ns, (Node.ast a).Path ns → Node.opened ns ≤ 128 := by
  intro ts
  have hrules (r : Rule) (s : State) (v : r.Result) (hs : s.depth ≤ 128)
      (h : r.result ts s = .ok v) : (r.reply ts s).state.depth = s.depth ∧
        ∀ ns, (r.toNode v).Path ns → s.depth + (r.levels + Node.opened ns) ≤ 128 := by
    obtain ⟨failed, hrun⟩ := r.reply_runs ts s
    refine ⟨hrun.onward.depth_eq, fun ns hp => ?_⟩
    have hroom : (s.point []).depth + (128 - s.depth) = 128 := Nat.add_sub_cancel' hs
    obtain ⟨hlevels, hfits⟩ : r.Fits (fun _ => True) (128 - s.depth) v := hrun.yields rfl hroom h
    have hopened := (hfits ns hp).1
    omega
  refine ⟨hrules, fun a ha => ?_⟩
  obtain ⟨b, hb, rfl⟩ := TokenStream.treeUnder_ok.mp ha
  obtain ⟨hdepth, hpaths⟩ := hrules .ast .start b (Nat.zero_le _) hb
  refine ⟨hdepth, fun ns hp => ?_⟩
  obtain ⟨ns, hpath, rfl⟩ := Node.Path.of_map (n := .ast b) _ hp
  have hopened := hpaths ns hpath
  rw [Node.opened_map]
  omega

/-- An operand of a sign below a statement, and a name that takes up the last level. -/
theorem opened_within_sign :
    (let ts := TokenStream.ofTokens (unplaced [⟨.keyword, "fn"⟩, ⟨.ident, "f"⟩, ⟨.punct, "("⟩,
      ⟨.punct, ")"⟩, ⟨.punct, "\x7b"⟩, ⟨.operator, "-"⟩, ⟨.ident, "x"⟩, ⟨.punct, "\x7d"⟩])
    ∃ a ns, ts.tree = .ok a ∧ (Node.ast a).Path ns ∧
      ns.map Node.kind = [.ast, .rootDecl, .funcDecl, .block, .stmt, .expr, .unary, .unary] ∧
      ts.reply.state.depth = 0 ∧ Node.opened ns ≤ 128) ∧
    let ts := TokenStream.ofTokens (unplaced [⟨.ident, "x"⟩])
    let s : State := { State.start with depth := 127 }
    ∃ v, Rule.expr.result ts s = .ok v ∧ (Rule.expr.reply ts s).state.depth = 127 ∧
      127 + (1 + Node.opened [.expr v]) ≤ 128 := by
  constructor
  · intro ts
    have hread : ts.tree.isOk = true := by decide +kernel
    have hfollows : ts.tree.toOption.any (fun a => (Node.ast a).follows
        [.ast, .rootDecl, .funcDecl, .block, .stmt, .expr, .unary, .unary]) = true := by
      decide +kernel
    obtain ⟨a, ha⟩ := Except.exists_of_isOk hread
    rw [ha] at hfollows
    obtain ⟨ns, hp, hkinds⟩ := Node.path_of_follows hfollows
    obtain ⟨-, htree⟩ := opened_within _
    obtain ⟨hdepth, hpaths⟩ := htree a ha
    exact ⟨a, ns, ha, hp, hkinds, hdepth, hpaths ns hp⟩
  · intro ts s
    have hread : (Rule.expr.result ts s).isOk = true := by decide +kernel
    obtain ⟨v, hv⟩ := Except.exists_of_isOk hread
    obtain ⟨hrules, -⟩ := opened_within _
    obtain ⟨hdepth, hpaths⟩ := hrules .expr s v (by decide) hv
    exact ⟨v, hv, hdepth, hpaths _ (.here _)⟩

/-- What a grammar does not refuse with `d'` constructs open it does alike with `d` of them open,
and what it refuses with `d` open it refuses with `d'` open. -/
structure Grammar.SameOrRefused {α : Type} (ts : TokenStream) (g : Grammar α) (s : State)
    (d d' : Nat) : Prop where
  same : ¬ Refused (g.result ts { s with depth := d' }) →
    g.result ts { s with depth := d } = g.result ts { s with depth := d' } ∧
    (g.run ts.lexemes .standard { s with depth := d }).state.cursor =
      (g.run ts.lexemes .standard { s with depth := d' }).state.cursor ∧
    (g.run ts.lexemes .standard { s with depth := d }).state.failure =
      (g.run ts.lexemes .standard { s with depth := d' }).state.failure
  refused : Refused (g.result ts { s with depth := d }) →
    Refused (g.result ts { s with depth := d' })

theorem Grammar.same_of_not_refused {α : Type} {ts : TokenStream} {g : Grammar α}
    (hends : ∀ s, (g.run ts.lexemes .standard s).outcome ≠ .exhausted) {s : State} {d d' : Nat}
    (h : d ≤ d') (hr : ¬ Refused (g.result ts { s with depth := d' })) :
    g.result ts { s with depth := d } = g.result ts { s with depth := d' } ∧
    (g.run ts.lexemes .standard { s with depth := d }).state.cursor =
      (g.run ts.lexemes .standard { s with depth := d' }).state.cursor ∧
    (g.run ts.lexemes .standard { s with depth := d }).state.failure =
      (g.run ts.lexemes .standard { s with depth := d' }).state.failure := by
  obtain ⟨failed, hrun⟩ := g.run_ran { s with depth := d } [] (hends _)
  obtain ⟨failed', hrun'⟩ := g.run_ran { s with depth := d' } [] (hends _)
  obtain ⟨hresult, hpoint⟩ := hrun.unique (hrun'.shallower hr h)
  exact ⟨hresult, congrArg Point.cursor hpoint, congrArg Point.failure hpoint⟩

theorem Grammar.sameOrRefused {α : Type} {ts : TokenStream} {g : Grammar α}
    (hends : ∀ s, (g.run ts.lexemes .standard s).outcome ≠ .exhausted) (s : State) {d d' : Nat}
    (h : d ≤ d') : g.SameOrRefused ts s d d' where
  same hr := same_of_not_refused hends h hr
  refused hr := by
    by_cases hr' : Refused (g.result ts { s with depth := d' })
    · exact hr'
    · exact (same_of_not_refused hends h hr').1 ▸ hr

/-- The number of open constructs decides no more about a part of a rule than about the rule. -/
theorem Grammar.Part.sameOrRefused {α : Type} {r : Rule} {g : Grammar α}
    (hg : g.Part r.production) (ts : TokenStream) (s : State) {d d' : Nat} (h : d ≤ d') :
    g.SameOrRefused ts s d d' := by
  obtain ⟨k, hk, hguarded⟩ := hg.production_guarded
  exact Grammar.sameOrRefused (Grammar.run_finishes hguarded hk) s h

theorem Phrase.ReadBy.part {p : Phrase} {g : Grammar p.Result} (hg : p.ReadBy g) :
    ∃ r : Rule, g.Part r.production := by
  have hsome : TypeDecl Nat := ⟨0, "", []⟩
  cases hg with
  | modifiers => exact ⟨.rootDecl, .next (0 : Nat) (.first .self)⟩
  | enumMembers => exact ⟨.enumDecl, .next (0 : Nat) (.next () (.next hsome (.first .self)))⟩
  | classMembers => exact ⟨.classDecl, .next (0 : Nat) (.next () (.next hsome (.first .self)))⟩
  | parameterList => exact ⟨.initialiserDecl, .next (0 : Nat) (.next () (.first .self))⟩
  | statements => exact ⟨.block, .next (0 : Nat) (.next () (.first (.nested .self)))⟩

/-- Modifiers, members, lists of parameters and statements are such parts. -/
theorem Phrase.ReadBy.sameOrRefused {p : Phrase} {g : Grammar p.Result} (hg : p.ReadBy g)
    (ts : TokenStream) (s : State) {d d' : Nat} (h : d ≤ d') : g.SameOrRefused ts s d d' := by
  obtain ⟨r, hpart⟩ := hg.part
  exact hpart.sameOrRefused ts s h

/-- For all tokens and every rule, from two states that differ in the number of open constructs
only. What is not refused with more of them open ends the same with fewer, with the same value or
the same error, at the same token and with the same record; and what is refused with fewer open is
refused with more. -/
theorem same_or_refused (ts : TokenStream) (r : Rule) (s : State) {d d' : Nat} (h : d ≤ d') :
    (¬ Refused (r.result ts { s with depth := d' }) →
      r.result ts { s with depth := d } = r.result ts { s with depth := d' } ∧
      (r.reply ts { s with depth := d }).state.cursor =
        (r.reply ts { s with depth := d' }).state.cursor ∧
      (r.reply ts { s with depth := d }).state.failure =
        (r.reply ts { s with depth := d' }).state.failure) ∧
    (Refused (r.result ts { s with depth := d }) →
      Refused (r.result ts { s with depth := d' })) := by
  have hends (t : State) : ((Grammar.call r).run ts.lexemes .standard t).outcome ≠ .exhausted :=
    Rule.run_openRules r t
  have hsame := Grammar.sameOrRefused hends s h
  exact ⟨hsame.same, hsame.refused⟩

/-- A name in brackets opens two expressions: with 126 constructs open it is read as with none, and
with 127 it is refused. -/
theorem same_or_refused_brackets :
    let ts := TokenStream.ofTokens (unplaced [⟨.punct, "("⟩, ⟨.ident, "x"⟩, ⟨.punct, ")"⟩])
    let s (n : Nat) : State := { State.start with depth := n }
    (∃ v, Rule.expr.result ts (s 126) = .ok v ∧ Rule.expr.result ts (s 0) = .ok v ∧
      (Rule.expr.reply ts (s 0)).state.cursor = 3) ∧
    Refused (Rule.expr.result ts (s 127)) ∧ Refused (Rule.expr.result ts (s 128)) := by
  intro ts s
  have hread : (Rule.expr.result ts (s 126)).isOk = true := by decide +kernel
  have hcursor : (Rule.expr.reply ts (s 126)).state.cursor = 3 := by decide +kernel
  have hrefused : Rule.expr.result ts (s 127) =
      .error ⟨.nestingTooDeep 128, .startOf defaultFile⟩ := Except.eq_error (by decide +kernel)
  obtain ⟨v, hv⟩ := Except.exists_of_isOk hread
  obtain ⟨hsame, -⟩ := same_or_refused ts .expr .start (Nat.zero_le 126)
  obtain ⟨hresult, hstop, -⟩ := hsame (hv ▸ not_refused_ok v)
  obtain ⟨-, hmore⟩ := same_or_refused ts .expr .start (Nat.le_succ 127)
  have hr : Refused (Rule.expr.result ts (s 127)) := ⟨_, _, hrefused⟩
  exact ⟨⟨v, hv, hresult.trans hv, hstop.trans hcursor⟩, hr, hmore hr⟩

end Syntree
