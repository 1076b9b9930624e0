import Syntree.Proofs.Exec
import Syntree.Parse

/-!
Runs as a relation.

`Grammar.exec` bounds what it repeats and keeps a mismatch apart from the error that describes it.
Here a run has no bound, an error is built where it arises and is handed on as a value, and all
expectations that ever failed are remembered. Whatever `exec` ends with is a run in this sense.
-/

namespace Syntree

/-- Where a run stands: what a state holds apart from observations, and every expectation that has
failed so far with the index at which it did. -/
structure Point where
  cursor : Nat
  failure : Failure
  depth : Nat
  failed : List (Nat × Expectation)
deriving DecidableEq

namespace Point

def start : Point := ⟨0, .none, 0, []⟩

/-- Moves over the current token. The end of the input is never passed. -/
def next (p : Point) (ts : TokenStream) : Point :=
  if (ts.lexeme p.cursor).kind = .eof then p else { p with cursor := p.cursor + 1 }

/-- An expectation that fails here. -/
def missing (p : Point) (e : Expectation) : Point :=
  { p with failure := p.failure.record p.cursor e, failed := (p.cursor, e) :: p.failed }

def expecting (p : Point) (es : List Expectation) : Point :=
  es.foldl missing p

end Point

/-- A state as a point, given the expectations that have failed on the way to it. -/
def State.point (s : State) (failed : List (Nat × Expectation)) : Point :=
  ⟨s.cursor, s.failure, s.depth, failed⟩

/-- What a grammar ends with that is a single step. -/
def Grammar.act? (ts : TokenStream) :
    {α : Type} → Grammar α → Point → Option (Except Error α × Point)
  | _, .done v, p => some (.ok v, p)
  | _, .here, p => some (.ok p.cursor, p)
  | _, .peek, p => some (.ok (ts.lexeme p.cursor), p)
  | _, .advance, p => some (.ok (ts.lexeme p.cursor), p.next ts)
  | _, .expect es, p =>
    if es.any (·.met (ts.lexeme p.cursor)) then some (.ok (ts.lexeme p.cursor), p.next ts)
    else some (.error (ts.mismatch (p.expecting es).failure), p.expecting es)
  | _, .operatorAbove min, p =>
    match (ts.lexeme p.cursor).binaryOperator? with
    | none => some (.ok none, p)
    | some (op, w) =>
      if w.rank ≤ min.rank then some (.ok none, p) else some (.ok (some (op, w)), p.next ts)
  | _, .fail, p => some (.error (ts.mismatch p.failure), p)
  | _, .reject e, p => some (.error ⟨e.cause, ts.position e.index⟩, p)
  | _, _, _ => none

/-- The grammar that another one only names or observes. -/
def Grammar.body? : {α : Type} → Grammar α → Option (Grammar α)
  | _, .call r => some r.production
  | _, .observe _ _ _ g => some g
  | _, _ => none

/-- `Runs ts limits g p r q`: from `p` the grammar ends at `q` with a value or an error `r`. -/
inductive Runs (ts : TokenStream) (limits : Limits) :
    {α : Type} → Grammar α → Point → Except Error α → Point → Prop where
  | act {α : Type} {g : Grammar α} {r : Except Error α} (step : g.act? ts p = some (r, q)) :
      Runs ts limits g p r q
  | body {α : Type} {g g' : Grammar α} {r : Except Error α} (meant : g.body? = some g')
      (inner : Runs ts limits g' p r q) : Runs ts limits g p r q
  | bind {α β : Type} {g : Grammar β} {f : β → Grammar α} {u : β} {r : Except Error α}
      (first : Runs ts limits g p (.ok u) q) (rest : Runs ts limits (f u) q r q') :
      Runs ts limits (.bind g f) p r q'
  | bindError {α β : Type} {g : Grammar β} {f : β → Grammar α} {e : Error}
      (first : Runs ts limits g p (.error e) q) : Runs ts limits (.bind g f) p (.error e) q
  -- A failed alternative is given up only after a token mismatch within the lookahead.
  | first {α : Type} {a b : Grammar α} {v : α} (read : Runs ts limits a p (.ok v) q) :
      Runs ts limits (.orElse a b) p (.ok v) q
  | lost {α : Type} {a b : Grammar α} {e : Error} (failed : Runs ts limits a p (.error e) q)
      (final : e.cause.recoverable = false) : Runs ts limits (.orElse a b) p (.error e) q
  | commit {α : Type} {a b : Grammar α} {e : Error} (failed : Runs ts limits a p (.error e) q)
      (recoverable : e.cause.recoverable = true)
      (past : limits.committed p.cursor q.cursor = true) :
      Runs ts limits (.orElse a b) p (.error (ts.mismatch q.failure)) q
  | second {α : Type} {a b : Grammar α} {e : Error} {r : Except Error α}
      (failed : Runs ts limits a p (.error e) q) (recoverable : e.cause.recoverable = true)
      (within : limits.committed p.cursor q.cursor = false)
      (rest : Runs ts limits b { q with cursor := p.cursor } r q') :
      Runs ts limits (.orElse a b) p r q'
  | loopEnd {β : Type} {v : β} {f : β → Grammar (Option β)}
      (last : Runs ts limits (f v) p (.ok none) q) : Runs ts limits (.loop v f) p (.ok v) q
  | loopNext {β : Type} {v u : β} {f : β → Grammar (Option β)} {r : Except Error β}
      (round : Runs ts limits (f v) p (.ok (some u)) q)
      (rest : Runs ts limits (.loop u f) q r q') : Runs ts limits (.loop v f) p r q'
  | loopError {β : Type} {v : β} {f : β → Grammar (Option β)} {e : Error}
      (round : Runs ts limits (f v) p (.error e) q) : Runs ts limits (.loop v f) p (.error e) q
  | tooDeep {α : Type} {g : Grammar α} {limit : Nat}
      (exceeded : limits.exceeded? p.depth = some limit) :
      Runs ts limits (.nested g) p (.error ⟨.nestingTooDeep limit, ts.position p.cursor⟩) p
  | nested {α : Type} {g : Grammar α} {r : Except Error α}
      (fits : limits.exceeded? p.depth = none)
      (inner : Runs ts limits g { p with depth := p.depth + 1 } r q) :
      Runs ts limits (.nested g) p r { q with depth := q.depth - 1 }

/-- `Enters ts limits h q g p`: in the course of running `g` from `p`, the grammar `h` is run from
`q`. Whether either run comes to an end is left open. -/
inductive Enters (ts : TokenStream) (limits : Limits) {γ : Type} (h : Grammar γ) (q : Point) :
    {α : Type} → Grammar α → Point → Prop where
  | self : Enters ts limits h q h q
  | body {α : Type} {g g' : Grammar α} (meant : g.body? = some g')
      (inside : Enters ts limits h q g' p) : Enters ts limits h q g p
  | bind {α β : Type} {g : Grammar β} {f : β → Grammar α} (inside : Enters ts limits h q g p) :
      Enters ts limits h q (.bind g f) p
  | bindNext {α β : Type} {g : Grammar β} {f : β → Grammar α} {u : β}
      (first : Runs ts limits g p (.ok u) p') (inside : Enters ts limits h q (f u) p') :
      Enters ts limits h q (.bind g f) p
  | first {α : Type} {a b : Grammar α} (inside : Enters ts limits h q a p) :
      Enters ts limits h q (.orElse a b) p
  | second {α : Type} {a b : Grammar α} {e : Error} (failed : Runs ts limits a p (.error e) p')
      (recoverable : e.cause.recoverable = true)
      (within : limits.committed p.cursor p'.cursor = false)
      (inside : Enters ts limits h q b { p' with cursor := p.cursor }) :
      Enters ts limits h q (.orElse a b) p
  | loop {β : Type} {v : β} {f : β → Grammar (Option β)} (inside : Enters ts limits h q (f v) p) :
      Enters ts limits h q (.loop v f) p
  | loopNext {β : Type} {v u : β} {f : β → Grammar (Option β)}
      (round : Runs ts limits (f v) p (.ok (some u)) p')
      (inside : Enters ts limits h q (.loop u f) p') : Enters ts limits h q (.loop v f) p
  | nested {α : Type} {g : Grammar α} (fits : limits.exceeded? p.depth = none)
      (inside : Enters ts limits h q g { p with depth := p.depth + 1 }) :
      Enters ts limits h q (.nested g) p

theorem Fatal.recoverable_eq (e : Fatal) : e.cause.recoverable = false := by
  cases e <;> rfl

variable {α β : Type} {ts : TokenStream} {limits : Limits} {g : Grammar α} {p q q' : Point}
  {r r' : Except Error α}

/-- All that a single step can do: it stays where it is, it moves over a token, or it fails. -/
theorem Grammar.act?_cases (h : g.act? ts p = some (r, q)) :
    (q = p ∧ ∀ e, r = .error e → e = ts.mismatch p.failure ∨ e.cause.recoverable = false) ∨
    (q = p.next ts ∧ ∃ v, r = .ok v) ∨
    ∃ es, q = p.expecting es ∧ r = .error (ts.mismatch q.failure) := by
  cases g with
  | done | here | peek =>
    cases h
    exact .inl ⟨rfl, nofun⟩
  | fail =>
    cases h
    exact .inl ⟨rfl, fun e he => .inl (Except.error.inj he).symm⟩
  | reject e =>
    cases h
    refine .inl ⟨rfl, ?_⟩
    rintro - ⟨⟩
    exact .inr e.recoverable_eq
  | advance =>
    cases h
    exact .inr (.inl ⟨rfl, _, rfl⟩)
  | expect es =>
    simp only [act?] at h
    split at h
    · cases h
      exact .inr (.inl ⟨rfl, _, rfl⟩)
    · cases h
      exact .inr (.inr ⟨es, rfl, rfl⟩)
  | operatorAbove min =>
    simp only [act?] at h
    split at h
    · cases h
      exact .inl ⟨rfl, nofun⟩
    · split at h
      · cases h
        exact .inl ⟨rfl, nofun⟩
      · cases h
        exact .inr (.inl ⟨rfl, _, rfl⟩)
  | bind | orElse | loop | nested | call | observe => cases h

theorem Grammar.act?_of_body? {g' : Grammar α} (h : g.body? = some g') : g.act? ts p = none := by
  cases g <;> first | rfl | cases h

/-- A grammar has one run from each point. -/
theorem Runs.unique (h : Runs ts limits g p r q) (h' : Runs ts limits g p r' q') :
    r = r' ∧ q = q' := by
  induction h generalizing q' with
  | act step =>
    cases h' with
    | act step' =>
      cases step.symm.trans step'
      exact ⟨rfl, rfl⟩
    | body meant =>
      rw [Grammar.act?_of_body? meant] at step
      cases step
    | _ => cases step
  | body meant _ ih =>
    cases h' with
    | act step =>
      rw [Grammar.act?_of_body? meant] at step
      cases step
    | body meant' inner =>
      cases meant.symm.trans meant'
      exact ih inner
    | _ => cases meant
  | bind _ _ ihf ihr =>
    cases h' with
    | bind first rest =>
      obtain ⟨hu, rfl⟩ := ihf first
      cases hu
      exact ihr rest
    | bindError first => cases (ihf first).1
    | act step | body step => cases step
  | bindError _ ih =>
    cases h' with
    | bind first _ => cases (ih first).1
    | bindError first =>
      obtain ⟨he, rfl⟩ := ih first
      cases he
      exact ⟨rfl, rfl⟩
    | act step | body step => cases step
  | first _ ih =>
    cases h' with
    | first read => exact ih read
    | lost failed | commit failed | second failed => cases (ih failed).1
    | act step | body step => cases step
  | lost _ final ih =>
    cases h' with
    | first read => cases (ih read).1
    | lost failed => exact ih failed
    | commit failed recoverable | second failed recoverable =>
      cases (ih failed).1
      rw [final] at recoverable
      cases recoverable
    | act step | body step => cases step
  | commit _ recoverable past ih =>
    cases h' with
    | first read => cases (ih read).1
    | lost failed final =>
      cases (ih failed).1
      rw [final] at recoverable
      cases recoverable
    | commit failed =>
      obtain ⟨-, rfl⟩ := ih failed
      exact ⟨rfl, rfl⟩
    | second failed _ within =>
      obtain ⟨-, rfl⟩ := ih failed
      rw [past] at within
      cases within
    | act step | body step => cases step
  | second _ recoverable within _ ih ihr =>
    cases h' with
    | first read => cases (ih read).1
    | lost failed final =>
      cases (ih failed).1
      rw [final] at recoverable
      cases recoverable
    | commit failed _ past =>
      obtain ⟨-, rfl⟩ := ih failed
      rw [past] at within
      cases within
    | second failed _ _ rest =>
      obtain ⟨-, rfl⟩ := ih failed
      exact ihr rest
    | act step | body step => cases step
  | loopEnd _ ih =>
    cases h' with
    | loopEnd last => exact ⟨rfl, (ih last).2⟩
    | loopNext round | loopError round => cases (ih round).1
    | act step | body step => cases step
  | loopNext _ _ ih ihr =>
    cases h' with
    | loopNext round rest =>
      obtain ⟨hu, rfl⟩ := ih round
      cases hu
      exact ihr rest
    | loopEnd round | loopError round => cases (ih round).1
    | act step | body step => cases step
  | loopError _ ih =>
    cases h' with
    | loopError round =>
      obtain ⟨he, rfl⟩ := ih round
      cases he
      exact ⟨rfl, rfl⟩
    | loopEnd round | loopNext round => cases (ih round).1
    | act step | body step => cases step
  | tooDeep exceeded =>
    cases h' with
    | tooDeep exceeded' =>
      cases exceeded.symm.trans exceeded'
      exact ⟨rfl, rfl⟩
    | nested fits => cases exceeded.symm.trans fits
    | act step | body step => cases step
  | nested fits _ ih =>
    cases h' with
    | tooDeep exceeded => cases exceeded.symm.trans fits
    | nested _ inner =>
      obtain ⟨hr, rfl⟩ := ih inner
      exact ⟨hr, rfl⟩
    | act step | body step => cases step

/-! What `exec` ends with -/

theorem TokenStream.result_ok {o : Outcome α} {f : Failure} {v : α} :
    ts.result o f = .ok v ↔ o = .ok v := by
  cases o <;> simp [result]

/-- Whether a reply is what a run of `g` from `p` ends with, unless a bound has cut it short. -/
def Reply.Ran (ts : TokenStream) (limits : Limits) (g : Grammar α) (p : Point) (x : Reply α) :
    Prop :=
  x.outcome ≠ .exhausted →
    ∃ failed, Runs ts limits g p (ts.result x.outcome x.state.failure) (x.state.point failed)

namespace Reply.Ran

variable {x : Reply α} {s : State}

theorem andThen {y : Reply β} {g : Grammar β} {f : β → Grammar α} {k : β → State → Reply α}
    (hy : y.Ran ts limits g p) (hk : ∀ v t failed, (k v t).Ran ts limits (f v) (t.point failed)) :
    (y.andThen k).Ran ts limits (.bind g f) p := by
  intro hx
  cases y with
  | mk o t =>
    cases o with
    | exhausted => exact absurd rfl hx
    | mismatch | fatal =>
      obtain ⟨failed, hg⟩ := hy (by simp)
      exact ⟨failed, .bindError hg⟩
    | ok v =>
      obtain ⟨failed, hg⟩ := hy (by simp)
      obtain ⟨failed', hf⟩ := hk v t failed hx
      exact ⟨failed', .bind hg hf⟩

theorem orElse {a b : Grammar α} {k : State → Reply α} {failed : List (Nat × Expectation)}
    (hx : x.Ran ts limits a (s.point failed))
    (hk : ∀ t failed, (k t).Ran ts limits b (t.point failed)) :
    (x.orElse limits s.cursor k).Ran ts limits (.orElse a b) (s.point failed) := by
  intro hne
  cases x with
  | mk o t =>
    cases o with
    | exhausted => exact absurd rfl hne
    | ok v =>
      obtain ⟨failed', ha⟩ := hx (by simp)
      exact ⟨failed', .first ha⟩
    | fatal e =>
      obtain ⟨failed', ha⟩ := hx (by simp)
      exact ⟨failed', .lost ha e.recoverable_eq⟩
    | mismatch =>
      obtain ⟨failed', ha⟩ := hx (by simp)
      unfold Reply.orElse at hne ⊢
      cases hc : limits.committed s.cursor t.cursor with
      | true =>
        exact ⟨failed', .commit ha rfl hc⟩
      | false =>
        simp only [hc, Bool.false_eq_true, if_false] at hne ⊢
        obtain ⟨failed'', hb⟩ := hk { t with cursor := s.cursor } failed' hne
        exact ⟨failed'', .second ha rfl hc hb⟩

theorem iterate {f : β → Grammar (Option β)} {k : β → State → Reply (Option β)}
    (hk : ∀ v t failed, (k v t).Ran ts limits (f v) (t.point failed)) (n : Nat) (v : β) (s : State)
    (failed : List (Nat × Expectation)) :
    (Grammar.iterate k n v s).Ran ts limits (.loop v f) (s.point failed) := by
  induction n generalizing v s failed with
  | zero => exact fun h => absurd rfl h
  | succ n ih =>
    intro hne
    have hround := hk v s failed
    unfold Grammar.iterate at hne ⊢
    cases hx : k v s with
    | mk o t =>
      rw [hx] at hne hround
      cases o with
      | exhausted => exact absurd rfl hne
      | mismatch | fatal =>
        obtain ⟨failed', hg⟩ := hround (by simp)
        exact ⟨failed', .loopError hg⟩
      | ok o =>
        obtain ⟨failed', hg⟩ := hround (by simp)
        cases o with
        | none => exact ⟨failed', .loopEnd hg⟩
        | some u =>
          obtain ⟨failed'', hrest⟩ := ih u t failed' hne
          exact ⟨failed'', .loopNext hg hrest⟩

end Reply.Ran

namespace Grammar

variable {rules : (r : Rule) → State → Reply r.Result}

theorem step_point (s : State) (failed : List (Nat × Expectation)) :
    (step ts.lexemes s).state.point failed = (s.point failed).next ts := by
  by_cases hk : (tokenAt ts.lexemes s.cursor).kind = .eof
  · simp [step, Point.next, State.point, TokenStream.lexeme, hk]
  · simp [step, Point.next, State.point, TokenStream.lexeme, hk]

/-- A step over a token, whatever is then said to have been read. -/
theorem next_ran {g : Grammar α} {v : α} {s : State} {failed : List (Nat × Expectation)}
    (h : g.act? ts (s.point failed) = some (.ok v, (s.point failed).next ts)) :
    (⟨.ok v, (step ts.lexemes s).state⟩ : Reply α).Ran ts limits g (s.point failed) := by
  intro _
  refine ⟨failed, .act ?_⟩
  rw [step_point]
  exact h

theorem expecting_point (s : State) (es : List Expectation) (failed : List (Nat × Expectation)) :
    ∃ failed', (s.point failed).expecting es = (s.expecting es).point failed' := by
  unfold Point.expecting State.expecting
  induction es generalizing s failed with
  | nil => exact ⟨failed, rfl⟩
  | cons e es ih =>
    exact ih { s with failure := s.failure.record s.cursor e } ((s.cursor, e) :: failed)

theorem operatorAbove_ran (min : Power) (s : State) (failed : List (Nat × Expectation)) :
    (exec ts.lexemes limits rules (operatorAbove min) s).Ran ts limits (operatorAbove min)
      (s.point failed) := by
  have hact : (operatorAbove min).act? ts (s.point failed) =
      match (ts.lexeme s.cursor).binaryOperator? with
      | none => some (.ok none, s.point failed)
      | some (op, w) =>
        if w.rank ≤ min.rank then some (.ok none, s.point failed)
        else some (.ok (some (op, w)), (s.point failed).next ts) := rfl
  change Reply.Ran ts limits _ _ (match (ts.lexeme s.cursor).binaryOperator? with
    | none => ⟨.ok none, s⟩
    | some (op, w) =>
      if w.rank ≤ min.rank then ⟨.ok none, s⟩ else ⟨.ok (some (op, w)), (step ts.lexemes s).state⟩)
  split at hact
  · exact fun _ => ⟨failed, .act hact⟩
  · next op w _ =>
    by_cases hw : w.rank ≤ min.rank
    · rw [if_pos hw] at hact ⊢
      exact fun _ => ⟨failed, .act hact⟩
    · rw [if_neg hw] at hact ⊢
      exact next_ran hact

theorem exec_ran (hr : ∀ r s failed, (rules r s).Ran ts limits (.call r) (s.point failed))
    (g : Grammar α) (s : State) (failed : List (Nat × Expectation)) :
    (exec ts.lexemes limits rules g s).Ran ts limits g (s.point failed) := by
  induction g generalizing s failed with
  | done | here | peek | fail | reject => exact fun _ => ⟨failed, .act rfl⟩
  | advance => exact next_ran rfl
  | call r => exact hr r s failed
  | bind g f ihg ihf => exact (ihg s failed).andThen ihf
  | orElse a b iha ihb => exact (iha s failed).orElse ihb
  | loop v f ih => exact .iterate ih _ v s failed
  | observe level name reading g ih =>
    intro hne
    obtain ⟨failed', hg⟩ := ih s failed hne
    exact ⟨failed', .body rfl hg⟩
  | expect es =>
    unfold exec
    split
    · next hm => exact next_ran (if_pos hm)
    · next hm =>
      intro _
      have hact : (expect es).act? ts (s.point failed) = some (.error (ts.mismatch
          ((s.point failed).expecting es).failure), (s.point failed).expecting es) := if_neg hm
      obtain ⟨failed', he⟩ := expecting_point s es failed
      rw [he] at hact
      exact ⟨failed', .act hact⟩
  | operatorAbove min => exact operatorAbove_ran min s failed
  | nested g ih =>
    unfold exec
    split
    · next hd => exact fun _ => ⟨failed, .tooDeep hd⟩
    · next hd =>
      intro hne
      obtain ⟨failed', hg⟩ := ih { s with depth := s.depth + 1 } failed hne
      have hn := Runs.nested (p := s.point failed) hd hg
      exact ⟨failed', hn⟩

end Grammar

theorem Rule.run_ran (n : Nat) (r : Rule) (s : State) (failed : List (Nat × Expectation)) :
    (Rule.run ts.lexemes limits n r s).Ran ts limits (.call r) (s.point failed) := by
  induction n generalizing r s failed with
  | zero => exact fun h => absurd rfl h
  | succ n ih =>
    intro hne
    obtain ⟨failed', hg⟩ := Grammar.exec_ran ih r.production s failed hne
    exact ⟨failed', .body rfl hg⟩

/-- What running a grammar ends with is a run. -/
theorem Grammar.run_ran (g : Grammar α) (s : State) (failed : List (Nat × Expectation)) :
    (g.run ts.lexemes limits s).Ran ts limits g (s.point failed) :=
  exec_ran (Rule.run_ran _) g s failed

end Syntree
