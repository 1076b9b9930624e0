import Syntree.Proofs.Completeness
import Syntree.Proofs.Yields

/-!
What the limit on nesting refuses.
-/

namespace Syntree

/-! Runs without the limit and with it -/

section

variable {α β : Type} {ts : TokenStream} {l : Option Nat} {n : Nat} {g : Grammar α} {h : Grammar β}
  {p q : Point} {r : Except Error α}

theorem Limits.exceeded?_eq_some (l : Option Nat) {d : Nat} (h : n ≤ d) :
    (⟨l, some n⟩ : Limits).exceeded? d = some n := by
  simp [exceeded?, h]

theorem Limits.exceeded?_eq_none (l : Option Nat) {d : Nat} (h : d < n) :
    (⟨l, some n⟩ : Limits).exceeded? d = none := by
  simp [exceeded?, h]

/-- Whether a run ends because, with `n` constructs open, it would open one more. -/
def TooDeep (ts : TokenStream) (l : Option Nat) (n : Nat) (g : Grammar α) (p : Point) : Prop :=
  ∃ pos q, Runs ts ⟨l, some n⟩ g p (.error ⟨.nestingTooDeep n, pos⟩) q

namespace TooDeep

theorem body {g' : Grammar α} (meant : g.body? = some g') (deep : TooDeep ts l n g' p) :
    TooDeep ts l n g p := by
  obtain ⟨pos, q, hrun⟩ := deep
  exact ⟨pos, q, .body meant hrun⟩

theorem bind {f : β → Grammar α} (deep : TooDeep ts l n h p) : TooDeep ts l n (.bind h f) p := by
  obtain ⟨pos, q, hrun⟩ := deep
  exact ⟨pos, q, .bindError hrun⟩

theorem bindNext {f : β → Grammar α} {u : β} (first : Runs ts ⟨l, some n⟩ h p (.ok u) q)
    (deep : TooDeep ts l n (f u) q) : TooDeep ts l n (.bind h f) p := by
  obtain ⟨pos, q, hrun⟩ := deep
  exact ⟨pos, q, .bind first hrun⟩

-- no alternative makes this error good
theorem first {b : Grammar α} (deep : TooDeep ts l n g p) : TooDeep ts l n (.orElse g b) p := by
  obtain ⟨pos, q, hrun⟩ := deep
  exact ⟨pos, q, .lost hrun rfl⟩

theorem second {a : Grammar α} {e : Error} (failed : Runs ts ⟨l, some n⟩ a p (.error e) q)
    (recoverable : e.cause.recoverable = true)
    (within : (⟨l, some n⟩ : Limits).committed p.cursor q.cursor = false)
    (deep : TooDeep ts l n g { q with cursor := p.cursor }) : TooDeep ts l n (.orElse a g) p := by
  obtain ⟨pos, q, hrun⟩ := deep
  exact ⟨pos, q, .second failed recoverable within hrun⟩

theorem loop {v : β} {f : β → Grammar (Option β)} (deep : TooDeep ts l n (f v) p) :
    TooDeep ts l n (.loop v f) p := by
  obtain ⟨pos, q, hrun⟩ := deep
  exact ⟨pos, q, .loopError hrun⟩

theorem loopNext {v u : β} {f : β → Grammar (Option β)}
    (round : Runs ts ⟨l, some n⟩ (f v) p (.ok (some u)) q) (deep : TooDeep ts l n (.loop u f) q) :
    TooDeep ts l n (.loop v f) p := by
  obtain ⟨pos, q, hrun⟩ := deep
  exact ⟨pos, q, .loopNext round hrun⟩

theorem here (hd : n ≤ p.depth) : TooDeep ts l n (.nested g) p :=
  ⟨_, p, .tooDeep (Limits.exceeded?_eq_some l hd)⟩

theorem nested (deep : TooDeep ts l n g { p with depth := p.depth + 1 }) :
    TooDeep ts l n (.nested g) p := by
  rcases Nat.lt_or_ge p.depth n with hd | hd
  · obtain ⟨pos, q, hrun⟩ := deep
    exact ⟨pos, _, .nested (Limits.exceeded?_eq_none l hd) hrun⟩
  · exact here hd

end TooDeep

/-- A run that opens nothing while `n` constructs are open ends the same with the limit `n`. -/
theorem Runs.limited (h : Runs ts ⟨l, none⟩ g p r q)
    (hd : ∀ {γ : Type} (i : Grammar γ) q', Enters ts ⟨l, none⟩ (.nested i) q' g p → q'.depth < n) :
    Runs ts ⟨l, some n⟩ g p r q := by
  induction h with
  | act step => exact .act step
  | body meant _ ih => exact .body meant (ih fun i q he => hd i q (.body meant he))
  | bind first _ ihf ihr =>
    exact .bind (ihf fun i q he => hd i q (.bind he))
      (ihr fun i q he => hd i q (.bindNext first he))
  | bindError _ ih => exact .bindError (ih fun i q he => hd i q (.bind he))
  | first _ ih => exact .first (ih fun i q he => hd i q (.first he))
  | lost _ final ih => exact .lost (ih fun i q he => hd i q (.first he)) final
  | commit _ recoverable past ih =>
    exact .commit (ih fun i q he => hd i q (.first he)) recoverable past
  | second failed recoverable within _ ih ihr =>
    exact .second (ih fun i q he => hd i q (.first he)) recoverable within
      (ihr fun i q he => hd i q (.second failed recoverable within he))
  | loopEnd _ ih => exact .loopEnd (ih fun i q he => hd i q (.loop he))
  | loopNext round _ ih ihr =>
    exact .loopNext (ih fun i q he => hd i q (.loop he))
      (ihr fun i q he => hd i q (.loopNext round he))
  | loopError _ ih => exact .loopError (ih fun i q he => hd i q (.loop he))
  | tooDeep exceeded => cases exceeded
  | nested fits _ ih =>
    exact .nested (Limits.exceeded?_eq_none l (hd _ _ .self))
      (ih fun i q he => hd i q (.nested fits he))

/-- With a limit a run ends the same, or it ends because of the limit. -/
theorem Runs.limited_or (h : Runs ts ⟨l, none⟩ g p r q) (n : Nat) :
    Runs ts ⟨l, some n⟩ g p r q ∨ TooDeep ts l n g p := by
  induction h with
  | act step => exact .inl (.act step)
  | body meant _ ih => exact ih.imp (.body meant) (.body meant)
  | bind _ _ ihf ihr =>
    rcases ihf with hf | hf
    · exact ihr.imp (.bind hf) (.bindNext hf)
    · exact .inr hf.bind
  | bindError _ ih => exact ih.imp .bindError .bind
  | first _ ih => exact ih.imp .first .first
  | lost _ final ih => exact ih.imp (.lost · final) .first
  | commit _ recoverable past ih => exact ih.imp (.commit · recoverable past) .first
  | second _ recoverable within _ ih ihr =>
    rcases ih with hf | hf
    · exact ihr.imp (.second hf recoverable within) (.second hf recoverable within)
    · exact .inr hf.first
  | loopEnd _ ih => exact ih.imp .loopEnd .loop
  | loopNext _ _ ih ihr =>
    rcases ih with hf | hf
    · exact ihr.imp (.loopNext hf) (.loopNext hf)
    · exact .inr hf.loop
  | loopError _ ih => exact ih.imp .loopError .loop
  | tooDeep exceeded => cases exceeded
  | @nested p _ _ _ _ _ _ ih =>
    rcases Nat.lt_or_ge p.depth n with hd | hd
    · exact ih.imp (.nested (Limits.exceeded?_eq_none l hd)) .nested
    · exact .inr (.here hd)

/-- A construct that is opened too deep ends all runs around it. -/
theorem Enters.tooDeep (he : Enters ts ⟨l, none⟩ (.nested h) q g p) (hd : n ≤ q.depth) :
    TooDeep ts l n g p := by
  induction he with
  | self => exact .here hd
  | body meant _ ih => exact ih.body meant
  | bind _ ih => exact ih.bind
  | bindNext first _ ih =>
    rcases first.limited_or n with hf | hf
    · exact .bindNext hf ih
    · exact hf.bind
  | first _ ih => exact ih.first
  | second failed recoverable within _ ih =>
    rcases failed.limited_or n with hf | hf
    · exact .second hf recoverable within ih
    · exact hf.first
  | loop _ ih => exact ih.loop
  | loopNext round _ ih =>
    rcases round.limited_or n with hf | hf
    · exact .loopNext hf ih
    · exact hf.loop
  | nested _ _ ih => exact ih.nested

end

namespace TokenStream

variable {ts : TokenStream} {l : Option Nat} {n : Nat} {a : Ast Nat}

theorem indexedTreeUnder_limited (h : ts.indexedTreeUnder ⟨l, none⟩ = .ok a) (n : Nat) :
    ts.indexedTreeUnder ⟨l, some n⟩ = .ok a ∨
      ∃ pos, ts.indexedTreeUnder ⟨l, some n⟩ = .error ⟨.nestingTooDeep n, pos⟩ := by
  obtain ⟨q, hrun⟩ := ts.indexedTreeUnder_runs ⟨l, none⟩
  rw [h] at hrun
  rcases hrun.limited_or n with hrun | ⟨pos, q, hrun⟩
  · exact .inl (indexedTreeUnder_eq hrun)
  · exact .inr ⟨pos, indexedTreeUnder_eq hrun⟩

/-- A tree is still found if and only if nothing is opened too deep, be it in vain. -/
theorem indexedTreeUnder_limited_iff (h : ts.indexedTreeUnder ⟨l, none⟩ = .ok a) :
    ts.indexedTreeUnder ⟨l, some n⟩ = .ok a ↔ ∀ {β : Type} (g : Grammar β) (q : Point),
      Enters ts ⟨l, none⟩ (.nested g) q (.call .ast) .start → q.depth < n := by
  constructor
  · intro hn β g q he
    refine Nat.lt_of_not_le fun hd => ?_
    obtain ⟨pos, q, hrun⟩ := he.tooDeep hd
    rw [indexedTreeUnder_eq hrun] at hn
    cases hn
  · intro hd
    obtain ⟨q, hrun⟩ := ts.indexedTreeUnder_runs ⟨l, none⟩
    rw [h] at hrun
    exact indexedTreeUnder_eq (hrun.limited hd)

end TokenStream

/-- For all tokens of which the rules make a tree while nesting is not limited. With the limit they
make the same tree of them, or refuse them because of the limit. They refuse them if and only if at
some time a construct is tried with 128 others open, even if nothing comes of it. A path through a
tree that is not refused opens at most 128 constructs; and the tokens of a source are not refused if
no path opens more than 127. -/
theorem nesting_refuses (T : List Token) {a : Ast Nat}
    (h : (TokenStream.ofTokens T).indexedTreeUnder ⟨some 1, none⟩ = .ok a) :
    let ts := TokenStream.ofTokens T
    (ts.tree = .ok (a.map ts.position) ∨ ∃ pos, ts.tree = .error ⟨.nestingTooDeep 128, pos⟩) ∧
    (ts.tree = .ok (a.map ts.position) ↔ ∀ {β : Type} (g : Grammar β) (q : Point),
      Enters ts ⟨some 1, none⟩ (.nested g) q (.call .ast) .start → q.depth < 128) ∧
    (ts.tree = .ok (a.map ts.position) →
      ∀ ns, (Node.ast a).Path ns → Node.opened ns ≤ 128) ∧
    ((∃ file source, tokenize file source = .ok T) →
      (∀ ns, (Node.ast a).Path ns → Node.opened ns ≤ 127) → ts.tree = .ok (a.map ts.position)) := by
  intro ts
  change ts.indexedTreeUnder ⟨some 1, none⟩ = .ok a at h
  have htree : ts.tree = .ok (a.map ts.position) ↔ ts.indexedTreeUnder .standard = .ok a := by
    refine ⟨fun ht => ?_, fun hi => TokenStream.treeUnder_ok.mpr ⟨a, hi, rfl⟩⟩
    rcases TokenStream.indexedTreeUnder_limited h 128 with hi | ⟨pos, hi⟩
    · exact hi
    · cases ht.symm.trans (TokenStream.treeUnder_error.mpr hi)
  refine ⟨?_, ?_, ?_, ?_⟩
  · rcases TokenStream.indexedTreeUnder_limited h 128 with hi | ⟨pos, hi⟩
    · exact .inl (htree.mpr hi)
    · exact .inr ⟨pos, TokenStream.treeUnder_error.mpr hi⟩
  · exact htree.trans (TokenStream.indexedTreeUnder_limited_iff h)
  · exact fun ht ns hp => TokenStream.opened_le (htree.mp ht) rfl hp
  · rintro ⟨file, source, hs⟩ hp
    have hi : LawfulInput ts.lexemes := tokenize_lawful hs
    obtain ⟨w, j, hd⟩ := TokenStream.indexedTreeUnder_derives hi h
    have hfits : (Node.ast a).Fits (Limits.Admits ⟨some 1, none⟩ .standard ts.lexemes) 127 :=
      fun ns hns => ⟨hp ns hns, fun m _ => Limits.admits_of_lookahead rfl m⟩
    rcases ts.tree_of_fits hi hd hfits with hok | ⟨hroom, -⟩
    · exact hok
    · exact absurd hroom (by decide)

theorem nesting_refuses_group :
    ∃ tokens a, tokenize "f" "fn f()\x7breturn(x)\x7d" = .ok tokens ∧
      (TokenStream.ofTokens tokens).indexedTreeUnder ⟨some 1, none⟩ = .ok a ∧
      (∀ ns, (Node.ast a).Path ns → Node.opened ns ≤ 127) ∧
      (TokenStream.ofTokens tokens).tree = .ok (a.map (TokenStream.ofTokens tokens).position) := by
  have hscan : (tokenize "f" "fn f()\x7breturn(x)\x7d").isOk = true := by decide +kernel
  have hends : (tokenize "f" "fn f()\x7breturn(x)\x7d").toOption.map (fun tokens =>
      (((TokenStream.ofTokens tokens).indexedTreeUnder ⟨some 1, none⟩).isOk,
        ((TokenStream.ofTokens tokens).indexedTreeUnder ⟨some 1, some 3⟩).isOk)) =
      some (true, true) := by decide +kernel
  obtain ⟨tokens, ht⟩ := Except.exists_of_isOk hscan
  rw [ht] at hends
  obtain ⟨hfree, hthree⟩ := Prod.mk.inj (Option.some.inj hends)
  obtain ⟨a, ha⟩ := Except.exists_of_isOk hfree
  have hpaths (ns : List (Node Nat)) (hp : (Node.ast a).Path ns) : Node.opened ns ≤ 127 := by
    rcases TokenStream.indexedTreeUnder_limited ha 3 with hi | ⟨pos, hi⟩
    · exact Nat.le_trans (TokenStream.opened_le hi rfl hp) (by decide)
    · rw [hi] at hthree
      cases hthree
  obtain ⟨-, -, -, hread⟩ := nesting_refuses tokens ha
  exact ⟨tokens, a, ht, ha, hpaths, hread ⟨_, _, ht⟩ hpaths⟩

/-- For every source with a tree: no path through it opens more than 128 constructs, and the
statements on it are no more than 128 and one for every case of a switch on it. The statements of a
case are not opened as those of a block are, so that 128 alone is no bound. -/
theorem statements_bounded {file source : String} {a : Ast Position} {ns : List (Node Position)}
    (h : parse file source = .ok a) (hp : (Node.ast a).Path ns) :
    Node.opened ns ≤ 128 ∧
      (ns.map Node.kind).count .stmt ≤ 128 + (ns.map Node.kind).count .caseStmt := by
  obtain ⟨tokens, -, htree⟩ := parse_ok h
  obtain ⟨b, hb, rfl⟩ := TokenStream.treeUnder_ok.mp htree
  have hopened : Node.opened ns ≤ 128 := by
    obtain ⟨ns, hpath, rfl⟩ := Node.Path.of_map (n := .ast b) _ hp
    rw [Node.opened_map]
    exact TokenStream.opened_le hb rfl hpath
  refine ⟨hopened, ?_⟩
  have hstmts := hp.stmts_le
  obtain ⟨ns, rfl⟩ := hp.eq_cons
  simp only [List.map_cons, List.tail_cons, Node.kind] at hstmts ⊢
  rw [List.count_cons_of_ne (by decide)]
  omega

theorem statements_bounded_switch :
    ∃ a ns, parse "f" "fn f()\x7bswitch x\x7bdefault:return\x7d\x7d" = .ok a ∧
      (Node.ast a).Path ns ∧
      ns.map Node.kind =
        [.ast, .rootDecl, .funcDecl, .block, .stmt, .switchStmt, .caseStmt, .stmt] ∧
      Node.opened ns ≤ 128 ∧
      (ns.map Node.kind).count .stmt ≤ 128 + (ns.map Node.kind).count .caseStmt := by
  have hparse : (parse "f" "fn f()\x7bswitch x\x7bdefault:return\x7d\x7d").isOk = true := by
    decide +kernel
  have hfollows : (parse "f" "fn f()\x7bswitch x\x7bdefault:return\x7d\x7d").toOption.any (fun a =>
      (Node.ast a).follows
        [.ast, .rootDecl, .funcDecl, .block, .stmt, .switchStmt, .caseStmt, .stmt]) = true := by
    decide +kernel
  obtain ⟨a, ha⟩ := Except.exists_of_isOk hparse
  rw [ha] at hfollows
  obtain ⟨ns, hp, hkinds⟩ := Node.path_of_follows hfollows
  exact ⟨a, ns, ha, hp, hkinds, statements_bounded ha hp⟩

end Syntree
