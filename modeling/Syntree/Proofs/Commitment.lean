import Syntree.Proofs.Completeness
import Syntree.Proofs.OtherLimits
import Syntree.Proofs.Session

/-!
What it costs to give up an alternative only within one token of lookahead.

A run that is never held to an alternative ends as it would if every alternative could be given up.
A run that is held to one ends there.
-/

namespace Syntree

open Grammar (committed_mono)

variable {α β : Type} {ts : TokenStream} {limits : Limits} {g : Grammar α} {h : Grammar β}
  {p q q' : Point} {r : Except Error α} {e : Error}

theorem Point.cursor_le_next (p : Point) (ts : TokenStream) : p.cursor ≤ (p.next ts).cursor := by
  unfold Point.next
  split <;> simp

theorem Point.cursor_expecting (p : Point) (es : List Expectation) :
    (p.expecting es).cursor = p.cursor := by
  unfold Point.expecting
  induction es generalizing p with
  | nil => rfl
  | cons e es ih => exact ih (p.missing e)

/-- A run does not end before the index where it started. -/
theorem Runs.cursor_le (h : Runs ts limits g p r q) : p.cursor ≤ q.cursor := by
  induction h with
  | act step =>
    rcases Grammar.act?_cases step with ⟨rfl, -⟩ | ⟨rfl, -⟩ | ⟨es, rfl, -⟩
    · exact Nat.le_refl _
    · exact Point.cursor_le_next _ _
    · exact Nat.le_of_eq (Point.cursor_expecting _ es).symm
  | body _ _ ih | bindError _ ih | first _ ih | lost _ _ ih | commit _ _ _ ih | loopEnd _ ih
  | loopError _ ih | nested _ _ ih => exact ih
  | bind _ _ ihf ihr | loopNext _ _ ihf ihr => exact Nat.le_trans ihf ihr
  | second _ _ _ _ _ ihr => exact ihr
  | tooDeep => exact Nat.le_refl _

theorem Enters.cursor_le (he : Enters ts limits h q g p) : p.cursor ≤ q.cursor := by
  induction he with
  | self => exact Nat.le_refl _
  | body _ _ ih | bind _ ih | first _ ih | second _ _ _ _ ih | loop _ ih | nested _ _ ih => exact ih
  | bindNext first _ ih => exact Nat.le_trans first.cursor_le ih
  | loopNext round _ ih => exact Nat.le_trans round.cursor_le ih

/-- An error goes up through all runs around the one it arises in, if alternatives let it pass. What
is kept of the point where it arises may depend on anything but the depth. -/
theorem Enters.carries (kept : Point → Prop) (he : Enters ts limits h q g p)
    (hr : Runs ts limits h q (.error e) q') (hq : kept q')
    (hdepth : ∀ p d, kept p → kept { p with depth := d })
    (hpass : ∀ {γ : Type} {a b : Grammar γ} {p p' : Point}, Enters ts limits h q a p →
      Runs ts limits a p (.error e) p' → kept p' →
      ∃ p'', Runs ts limits (.orElse a b) p (.error e) p'' ∧ kept p'') :
    ∃ p', Runs ts limits g p (.error e) p' ∧ kept p' := by
  induction he with
  | self => exact ⟨q', hr, hq⟩
  | body meant _ ih =>
    obtain ⟨p', hg, hp'⟩ := ih
    exact ⟨p', .body meant hg, hp'⟩
  | bind _ ih =>
    obtain ⟨p', hg, hp'⟩ := ih
    exact ⟨p', .bindError hg, hp'⟩
  | bindNext first _ ih =>
    obtain ⟨p', hg, hp'⟩ := ih
    exact ⟨p', .bind first hg, hp'⟩
  | first inside ih =>
    obtain ⟨p', ha, hp'⟩ := ih
    exact hpass inside ha hp'
  | second failed recoverable within _ ih =>
    obtain ⟨p', hb, hp'⟩ := ih
    exact ⟨p', .second failed recoverable within hb, hp'⟩
  | loop _ ih =>
    obtain ⟨p', hg, hp'⟩ := ih
    exact ⟨p', .loopError hg, hp'⟩
  | loopNext round _ ih =>
    obtain ⟨p', hg, hp'⟩ := ih
    exact ⟨p', .loopNext round hg, hp'⟩
  | nested fits _ ih =>
    obtain ⟨p', hg, hp'⟩ := ih
    exact ⟨_, .nested fits hg, hdepth p' _ hp'⟩

/-- An error that is no mismatch ends every run around the one it arises in. -/
theorem Enters.final (he : Enters ts limits h q g p) (hr : Runs ts limits h q (.error e) q')
    (hf : e.cause.recoverable = false) : ∃ p', Runs ts limits g p (.error e) p' := by
  obtain ⟨p', hg, -⟩ := he.carries (fun _ => True) hr trivial (fun _ _ => id)
    fun _ ha _ => ⟨_, .lost ha hf, trivial⟩
  exact ⟨p', hg⟩

/-- A mismatch that has read too much to be given up where it arises has read too much for every run
around it, and ends them all. -/
theorem Enters.commits (he : Enters ts limits h q g p) (hr : Runs ts limits h q (.error e) q')
    (hm : e = ts.mismatch q'.failure) (hc : limits.committed q.cursor q'.cursor = true) :
    ∃ p', Runs ts limits g p (.error e) p' ∧ p'.cursor = q'.cursor ∧ p'.failure = q'.failure ∧
      p'.failed = q'.failed := by
  refine he.carries (fun p' => p'.cursor = q'.cursor ∧ p'.failure = q'.failure ∧
    p'.failed = q'.failed) hr ⟨rfl, rfl, rfl⟩ (fun _ _ => id) ?_
  intro γ a b p p' inside ha hp'
  have hpast := committed_mono inside.cursor_le (hp'.1.symm ▸ hc)
  have he : e = ts.mismatch p'.failure := by rw [hp'.2.1, hm]
  refine ⟨p', ?_, hp'⟩
  rw [he]
  exact .commit ha (he ▸ rfl) hpast

/-- A run that has not failed past the lookahead ends the same if every alternative can be given
up. -/
theorem Runs.rewinding (h : Runs ts limits g p r q)
    (hc : ∀ e, r = .error e → e.cause.recoverable = true →
      limits.committed p.cursor q.cursor = false) :
    Runs ts ⟨none, limits.nesting⟩ g p r q := by
  -- what a later part has not read past, an earlier start has not read past either
  have hlater {p q q' : Point} (hle : p.cursor ≤ q.cursor)
      (hc : limits.committed p.cursor q'.cursor = false) :
      limits.committed q.cursor q'.cursor = false := by
    rw [← Bool.not_eq_true] at hc ⊢
    exact mt (committed_mono hle) hc
  induction h with
  | act step => exact .act step
  | body meant _ ih => exact .body meant (ih hc)
  | bind first _ ihf ihr =>
    exact .bind (ihf nofun) (ihr fun e he hr => hlater first.cursor_le (hc e he hr))
  | bindError _ ih => exact .bindError (ih fun e he => hc e (congrArg _ (Except.error.inj he)))
  | first _ ih => exact .first (ih nofun)
  | lost _ final ih => exact .lost (ih hc) final
  | commit _ _ past =>
    rw [hc _ rfl rfl] at past
    cases past
  | second _ recoverable within _ ih ihr =>
    exact .second (ih fun _ _ _ => within) recoverable rfl (ihr hc)
  | loopEnd _ ih => exact .loopEnd (ih nofun)
  | loopNext round _ ih ihr =>
    exact .loopNext (ih nofun) (ihr fun e he hr => hlater round.cursor_le (hc e he hr))
  | loopError _ ih => exact .loopError (ih fun e he => hc e (congrArg _ (Except.error.inj he)))
  | tooDeep exceeded => exact .tooDeep exceeded
  | nested fits _ ih => exact .nested fits (ih hc)

namespace TokenStream

/-- No lookahead, so that every alternative can be given up. -/
abbrev rewinding : Limits := ⟨none, some 128⟩

theorem rewinding_of_indexedTree {r : Except Error (Ast Nat)} (h : ts.indexedTree = r)
    (hr : ∀ e, r = .error e → e.cause.recoverable = false) :
    ts.indexedTreeUnder rewinding = r := by
  obtain ⟨q, hrun⟩ := ts.indexedTreeUnder_runs .standard
  change Runs ts .standard (.call .ast) .start ts.indexedTree q at hrun
  rw [h] at hrun
  refine indexedTreeUnder_eq (hrun.rewinding fun e he hrec => ?_)
  rw [hr e he] at hrec
  cases hrec

/-- Where a tree is found only because alternatives are given up later, a brace starts an expression
that stands as a statement. -/
theorem brace_of_rewinding (hi : LawfulInput ts.lexemes) {b : Ast Nat}
    (h : ts.indexedTree = .error e) (hb : ts.indexedTreeUnder rewinding = .ok b) :
    ∃ d i x, (d, Node.stmt (.expression i x)) ∈ (Node.ast b).preorder 0 ∧
      (ts.lexeme i).spells "\x7b" = true := by
  apply Classical.byContradiction
  intro hnone
  have hadmits : ∀ ns, (Node.ast b).Path ns →
      ∀ m ∈ ns, rewinding.Admits .standard ts.lexemes m := by
    intro ns hns m hm
    obtain ⟨d, hd⟩ := hns.mem_preorder hm 0
    unfold Limits.Admits
    split
    · next i x =>
      refine fun ho => ⟨ho.1, fun _ hbrace => ?_⟩
      exact absurd ⟨d, i, x, hd, hbrace⟩ hnone
    · trivial
  obtain ⟨w, j, hd⟩ := indexedTreeUnder_derives hi hb
  obtain ⟨room, hfits⟩ := Node.exists_fits hadmits
  have htree : ts.tree = .error e := treeUnder_error.mpr h
  rcases ts.tree_of_fits hi hd hfits with hok | ⟨-, limit, pos, hdeep⟩
  · rw [htree] at hok
    cases hok
  · cases htree.symm.trans hdeep
    rw [rewinding_of_indexedTree h] at hb
    · cases hb
    · rintro - ⟨⟩
      rfl

end TokenStream

/-- For every source whose scanning succeeds. Once an alternative has failed more than one token
past its start, that error ends the parse, and every run around it at once. A tree is also found if
every alternative can be given up, and so is an error other than a mismatch. Where giving up more
would have found a tree, it has a statement that is an expression and starts with a brace. -/
theorem commit_refines {file source : String} {tokens : List Token}
    (h : tokenize file source = .ok tokens) :
    let ts := TokenStream.ofTokens tokens
    (∀ {α : Type} {a b : Grammar α} {q q' : Point} {e : Error},
      Enters ts .standard (.orElse a b) q (.call .ast) .start →
      Runs ts .standard a q (.error e) q' → e.cause.recoverable = true →
      q.cursor + 1 < q'.cursor →
      ts.tree = .error e ∧
      ∀ {β : Type} {g : Grammar β} {p : Point}, Enters ts .standard g p (.call .ast) .start →
        Enters ts .standard (.orElse a b) q g p →
        ∃ p', Runs ts .standard g p (.error e) p' ∧ p'.cursor = q'.cursor ∧
          p'.failed = q'.failed) ∧
    (∀ a, ts.tree = .ok a → ts.treeUnder ⟨none, some 128⟩ = .ok a) ∧
    (∀ e, ts.tree = .error e → e.cause.recoverable = false →
      ts.treeUnder ⟨none, some 128⟩ = .error e) ∧
    ∀ e b, ts.tree = .error e → ts.indexedTreeUnder ⟨none, some 128⟩ = .ok b →
      ∃ d i x, (d, Node.stmt (.expression i x)) ∈ (Node.ast b).preorder 0 ∧
        (ts.lexeme i).spells "\x7b" = true := by
  intro ts
  have hi : LawfulInput ts.lexemes := tokenize_lawful h
  have hts : ts.firstEof < ts.tokens.size := ts.firstEof_lt
  refine ⟨?_, ?_, ?_, ?_⟩
  · intro α a b q q' e hin hrun hrec hpast
    have hq : q.Sound ts := hin.sound hts (.start hts)
    have hm : e = ts.mismatch q'.failure := (hrun.keeps hts hq).2 e rfl hrec
    have hc : Limits.standard.committed q.cursor q'.cursor = true := by
      simpa [Limits.committed, Limits.standard] using hpast
    have hstop : Runs ts .standard (.orElse a b) q (.error e) q' := by
      rw [hm]
      exact .commit hrun hrec hc
    obtain ⟨p', hast, -⟩ := hin.commits hstop hm hc
    have hindexed : ts.indexedTree = .error e := TokenStream.indexedTreeUnder_eq hast
    refine ⟨TokenStream.treeUnder_error.mpr hindexed, fun _ hinside => ?_⟩
    obtain ⟨p', hg, hcursor, -, hfailed⟩ := hinside.commits hstop hm hc
    exact ⟨p', hg, hcursor, hfailed⟩
  · intro a ha
    obtain ⟨b, hb, rfl⟩ := TokenStream.treeUnder_ok.mp ha
    have hr := TokenStream.rewinding_of_indexedTree hb (by simp)
    exact TokenStream.treeUnder_ok.mpr ⟨b, hr, rfl⟩
  · intro e he hfinal
    have hr := TokenStream.rewinding_of_indexedTree (TokenStream.treeUnder_error.mp he)
      fun _ he' => Except.error.inj he' ▸ hfinal
    exact TokenStream.treeUnder_error.mpr hr
  · intro e b he hb
    exact TokenStream.brace_of_rewinding hi (TokenStream.treeUnder_error.mp he) hb

theorem commit_refines_dict :
    ∃ tokens e b d i x, tokenize "f" "fn f()\x7b\x7bx:1\x7d\x7d" = .ok tokens ∧
      (TokenStream.ofTokens tokens).tree = .error e ∧
      (TokenStream.ofTokens tokens).indexedTreeUnder ⟨none, some 128⟩ = .ok b ∧
      (d, Node.stmt (.expression i x)) ∈ (Node.ast b).preorder 0 ∧
      ((TokenStream.ofTokens tokens).lexeme i).spells "\x7b" = true := by
  have hscan : (tokenize "f" "fn f()\x7b\x7bx:1\x7d\x7d").isOk = true := by decide +kernel
  have hends : (tokenize "f" "fn f()\x7b\x7bx:1\x7d\x7d").toOption.map (fun tokens =>
      ((TokenStream.ofTokens tokens).tree.isOk,
        ((TokenStream.ofTokens tokens).indexedTreeUnder ⟨none, some 128⟩).isOk)) =
      some (false, true) := by decide +kernel
  obtain ⟨tokens, ht⟩ := Except.exists_of_isOk hscan
  rw [ht] at hends
  obtain ⟨hfails, hfinds⟩ := Prod.mk.inj (Option.some.inj hends)
  obtain ⟨b, hb⟩ := Except.exists_of_isOk hfinds
  obtain ⟨-, -, -, hbrace⟩ := commit_refines ht
  cases htree : (TokenStream.ofTokens tokens).tree with
  | ok a =>
    rw [htree] at hfails
    cases hfails
  | error e =>
    obtain ⟨d, i, x, hd, hx⟩ := hbrace e b htree hb
    exact ⟨tokens, e, b, d, i, x, ht, htree, hb, hd, hx⟩

end Syntree
