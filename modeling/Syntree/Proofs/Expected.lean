import Syntree.Proofs.Records
import Syntree.Parse

/-!
What a failure record is worth: a run that has failed at an index has asked every question about the
token there, but for that after an operator, and has put on record what it asked for in vain. So the
record tells what a run on another input would do that agrees up to this index.
-/

namespace Syntree

open Grammar

variable {α β : Type} {i : Nat} {l l' : Lexeme}

/-- How a run and a second run can compare that starts in the same state, on an input that has `l'`
in place of `l` at the index `i` and agrees before it. -/
inductive Parallel (i : Nat) (l l' : Lexeme) (r r' : Reply α) : Prop where
  /-- The first run has got past the index. -/
  | beyond (h : r.Beyond i)
  /-- The two run alike, and `l'` meets nothing that was expected. -/
  | same (h : r' = r) (clean : ¬ r.state.failure.Asked i l')
  /-- The second run alone has got past the index, thanks to a token of another kind. -/
  | parted (h : r'.Beyond i) (differ : l' ≠ l)
      (why : l'.kind = .operator ∨ r.state.failure.Asked i l')
  | exhausted (h : r'.outcome = .exhausted)

namespace Parallel

variable {r r' : Reply α}

theorem restate {t t' : State} (h : Parallel i l l' r r') (hc : t.cursor = r.state.cursor)
    (hf : t.failure = r.state.failure) (hc' : t'.cursor = r'.state.cursor)
    (hf' : t'.failure = r'.state.failure) (ht : r' = r → t' = t) :
    Parallel i l l' ⟨r.outcome, t⟩ ⟨r'.outcome, t'⟩ := by
  cases h with
  | beyond h => exact .beyond (h.restate hc hf)
  | same h clean => exact .same (by rw [h, ht h]) (by rwa [hf])
  | parted h differ why => exact .parted (h.restate hc' hf') differ (by rwa [hf])
  | exhausted h => exact .exhausted h

/-- When the second run alone has got past the index, it stays so whatever the first does next. -/
theorem parted_mono {r₁ : Reply β} {r₁' : Reply β} (h : r₁'.Beyond i) (differ : l' ≠ l)
    (why : l'.kind = .operator ∨ r.state.failure.Asked i l')
    (hk : r.state.failure.Within r₁.state.failure) : Parallel i l l' r₁ r₁' := by
  by_cases hi : i < r₁.state.failure.furthest
  · exact .beyond (Reply.beyond_of_furthest hi)
  · refine .parted h differ (why.imp id fun ha => ?_)
    exact ha.mono hk (Nat.le_of_not_lt hi)

theorem within_andThen {f : α → State → Reply β}
    (hk : ∀ v (t : State), t.failure.Within (f v t).state.failure) :
    r.state.failure.Within (r.andThen f).state.failure := by
  unfold Reply.andThen
  split
  · exact hk _ _
  all_goals exact .refl _

theorem andThen {f f' : α → State → Reply β} (h : Parallel i l l' r r')
    (hb : ∀ v t, t.Past i → (f v t).Beyond i) (hb' : ∀ v t, t.Past i → (f' v t).Beyond i)
    (hk : ∀ v (t : State), t.failure.Within (f v t).state.failure)
    (hf : ∀ v t, t.cursor ≤ i → t.failure.furthest ≤ i → ¬ t.failure.Asked i l' →
      Parallel i l l' (f v t) (f' v t)) :
    Parallel i l l' (r.andThen f) (r'.andThen f') := by
  have hwithin : r.state.failure.Within (r.andThen f).state.failure := within_andThen hk
  cases h with
  | beyond h => exact .beyond (h.andThen hb)
  | parted h differ why => exact parted_mono (h.andThen hb') differ why hwithin
  | exhausted h =>
    refine .exhausted ?_
    unfold Reply.andThen
    rw [h]
  | same h clean =>
    subst h
    cases r' with
    | mk o t =>
      cases o with
      | fatal | exhausted => exact .beyond trivial
      | mismatch => exact .same rfl clean
      | ok v =>
        by_cases hp : t.Past i
        · exact .beyond (hb v t hp)
        · unfold State.Past at hp
          exact hf v t (by omega) (by omega) clean

theorem orElse {limits : Limits} {c : Nat} {f f' : State → Reply α} (h : Parallel i l l' r r')
    (hc : c ≤ i) (hk : ∀ t : State, t.failure.Within (f t).state.failure)
    (hk' : ∀ t : State, t.failure.Within (f' t).state.failure)
    (hf : ∀ t, t.cursor ≤ i → t.failure.furthest ≤ i → ¬ t.failure.Asked i l' →
      Parallel i l l' (f t) (f' t)) :
    Parallel i l l' (r.orElse limits c f) (r'.orElse limits c f') := by
  have hwithin : r.state.failure.Within (r.orElse limits c f).state.failure := by
    unfold Reply.orElse
    split
    · split
      · exact .refl _
      · exact hk { r.state with cursor := c }
    · exact .refl _
  cases h with
  | beyond h => exact .beyond (h.orElse hk)
  | parted h differ why => exact parted_mono (h.orElse hk') differ why hwithin
  | exhausted h =>
    refine .exhausted ?_
    unfold Reply.orElse
    rw [h]
    exact h
  | same h clean =>
    subst h
    cases r' with
    | mk o t =>
      cases o with
      | ok | fatal | exhausted => exact .same rfl clean
      | mismatch =>
        unfold Reply.orElse
        cases hd : limits.committed c t.cursor with
        | true => exact .same rfl clean
        | false =>
          by_cases hi : i < t.failure.furthest
          · exact .beyond (Reply.beyond_of_furthest
              (Nat.lt_of_lt_of_le hi (hk { t with cursor := c }).le))
          · exact hf { t with cursor := c } hc (Nat.le_of_not_lt hi) clean

end Parallel

namespace Grammar

variable {input input' : Array Lexeme} {limits : Limits}
  {rules rules' : (r : Rule) → State → Reply r.Result}

theorem iterate_beyond {f : β → State → Reply (Option β)}
    (hb : ∀ v t, t.Past i → (f v t).Beyond i) (n : Nat) (v : β) {s : State} (hs : s.Past i) :
    (iterate f n v s).Beyond i := by
  induction n generalizing v s with
  | zero => trivial
  | succ n ih =>
    refine (hb v s hs).andThen fun o t ht => ?_
    cases o with
    | none => exact ht
    | some u => exact ih u ht

theorem iterate_parallel {f f' : β → State → Reply (Option β)}
    (hb : ∀ v t, t.Past i → (f v t).Beyond i) (hb' : ∀ v t, t.Past i → (f' v t).Beyond i)
    (hk : ∀ v (t : State), t.failure.Within (f v t).state.failure)
    (hf : ∀ v t, t.cursor ≤ i → t.failure.furthest ≤ i → ¬ t.failure.Asked i l' →
      Parallel i l l' (f v t) (f' v t)) (n n' : Nat) (v : β) {s : State} (hc : s.cursor ≤ i)
    (hs : s.failure.furthest ≤ i) (ha : ¬ s.failure.Asked i l') :
    Parallel i l l' (iterate f n v s) (iterate f' n' v s) := by
  induction n generalizing n' v s with
  | zero => exact .beyond trivial
  | succ n ih =>
    cases n' with
    | zero => exact .exhausted rfl
    | succ n' =>
      refine (hf v s hc hs ha).andThen (fun o t ht => ?_) (fun o t ht => ?_) (fun o t => ?_)
        (fun o t htc hts hta => ?_)
      · cases o with
        | none => exact ht
        | some u => exact iterate_beyond hb n u ht
      · cases o with
        | none => exact ht
        | some u => exact iterate_beyond hb' n' u ht
      · cases o with
        | none => exact .refl _
        | some u => exact iterate_kept (kept_failure #[]) hk n u t
      · cases o with
        | none => exact .same rfl hta
        | some u => exact ih n' u htc hts hta

theorem step_beyond {s : State} (hc : s.cursor = i) (hk : (tokenAt input i).kind ≠ .eof) :
    (step input s).Beyond i := by
  rw [← hc] at hk ⊢
  rw [step_state hk]
  exact .inl (Nat.lt_succ_self s.cursor)

theorem expect_parallel {es : List Expectation} (he : .kind .eof ∉ es)
    (hag : ∀ k < i, tokenAt input' k = tokenAt input k) {s : State} (hc : s.cursor ≤ i)
    (hs : s.failure.furthest ≤ i) (ha : ¬ s.failure.Asked i (tokenAt input' i)) :
    Parallel i (tokenAt input i) (tokenAt input' i) (exec input limits rules (expect es) s)
      (exec input' limits rules' (expect es) s) := by
  unfold exec
  rcases Nat.lt_or_eq_of_le hc with hlt | heq
  · rw [hag _ hlt]
    split
    · refine .same ?_ ?_
      · simp only [step, hag _ hlt]
      · simp only [step]
        split <;> exact ha
    · exact .same rfl fun h => ha ((Failure.asked_expecting_before hlt).mp h)
  · rw [heq]
    cases hl : es.any (·.met (tokenAt input i)) with
    | true => exact .beyond (step_beyond heq (met_kind he hl))
    | false =>
      -- the first run puts on record what it asked for
      have hasked : (s.expecting es).failure.Asked i (tokenAt input' i) ↔
          s.failure.Asked i (tokenAt input' i) ∨ es.any (·.met (tokenAt input' i)) = true := by
        unfold State.expecting
        rw [heq]
        exact Failure.asked_expecting hs
      cases hl' : es.any (·.met (tokenAt input' i)) with
      | true =>
        refine .parted (step_beyond heq (met_kind he hl')) ?_ (.inr ?_)
        · intro h
          rw [h, hl] at hl'
          cases hl'
        · exact hasked.mpr (.inr hl')
      | false =>
        refine .same rfl fun h => ?_
        rcases hasked.mp h with h | h
        · exact ha h
        · rw [hl'] at h
          cases h

/-- The operator that `operatorAbove` takes. -/
def operatorTaken (min : Power) (l : Lexeme) : Option (Op × Power) :=
  l.binaryOperator?.filter fun q => min.rank < q.2.rank

theorem exec_operatorAbove (min : Power) (s : State) :
    exec input limits rules (operatorAbove min) s =
      match operatorTaken min (tokenAt input s.cursor) with
      | none => ⟨.ok none, s⟩
      | some q => ⟨.ok (some q), (step input s).state⟩ := by
  unfold exec operatorTaken
  cases (tokenAt input s.cursor).binaryOperator? with
  | none => rfl
  | some q =>
    by_cases hq : q.2.rank ≤ min.rank
    · rw [Option.filter_some_neg (by simpa using hq)]
      simp [hq]
    · rw [Option.filter_some_pos (by simpa using hq)]
      simp [hq]

theorem kind_of_operatorTaken {min : Power} {l : Lexeme} {q : Op × Power}
    (h : operatorTaken min l = some q) : l.kind = .operator := by
  obtain ⟨hq, -⟩ := Option.filter_eq_some_iff.mp h
  exact Lexeme.kind_of_binaryOperator hq

theorem operatorTaken_beyond {min : Power} {q : Op × Power} {s : State} (hc : s.cursor = i)
    (h : operatorTaken min (tokenAt input i) = some q) :
    (⟨.ok (some q), (step input s).state⟩ : Reply (Option (Op × Power))).Beyond i := by
  have hk : (tokenAt input i).kind ≠ .eof := by simp [kind_of_operatorTaken h]
  exact step_beyond hc hk

theorem operatorAbove_parallel {min : Power} (hag : ∀ k < i, tokenAt input' k = tokenAt input k)
    {s : State} (hc : s.cursor ≤ i) (ha : ¬ s.failure.Asked i (tokenAt input' i)) :
    Parallel i (tokenAt input i) (tokenAt input' i)
      (exec input limits rules (operatorAbove min) s)
      (exec input' limits rules' (operatorAbove min) s) := by
  rw [exec_operatorAbove, exec_operatorAbove]
  rcases Nat.lt_or_eq_of_le hc with hlt | heq
  · rw [hag _ hlt]
    refine .same ?_ ?_
    · simp only [step, hag _ hlt]
    · split
      · exact ha
      · simp only [step]
        split <;> exact ha
  · rw [heq]
    cases hl : operatorTaken min (tokenAt input i) with
    | some q => exact .beyond (operatorTaken_beyond heq hl)
    | none =>
      cases hl' : operatorTaken min (tokenAt input' i) with
      | none => exact .same rfl ha
      | some q =>
        refine .parted (operatorTaken_beyond heq hl') ?_ (.inl (kind_of_operatorTaken hl'))
        intro h
        rw [h, hl] at hl'
        cases hl'

/-- Two runs of a grammar from one state compare in one of the ways above. -/
theorem exec_parallel (hr : Tracked rules) (hr' : Tracked rules')
    (hag : ∀ k < i, tokenAt input' k = tokenAt input k)
    (hcall : ∀ r s, r ≠ .ast → s.cursor ≤ i → s.failure.furthest ≤ i → ¬ s.failure.Asked i
      (tokenAt input' i) → Parallel i (tokenAt input i) (tokenAt input' i) (rules r s) (rules' r s))
    {g : Grammar α} (hg : g.Faithful) {s : State} (hc : s.cursor ≤ i)
    (hs : s.failure.furthest ≤ i) (ha : ¬ s.failure.Asked i (tokenAt input' i)) :
    Parallel i (tokenAt input i) (tokenAt input' i) (exec input limits rules g s)
      (exec input' limits rules' g s) := by
  induction g generalizing s with
  | done | here => exact .same rfl ha
  | reject => exact .beyond trivial
  | fail | peek | advance => exact absurd hg id
  | call r => exact hcall r s hg hc hs ha
  | expect es => exact expect_parallel hg.2 hag hc hs ha
  | operatorAbove min => exact operatorAbove_parallel hag hc ha
  | bind g f ihg ihf =>
    exact (ihg hg.1 hc hs ha).andThen (fun v t ht => exec_beyond hr (hg.2 v) ht)
      (fun v t ht => exec_beyond hr' (hg.2 v) ht)
      (fun v t => exec_kept (kept_failure input) hr.failure (f v) t)
      (fun v t htc hts hta => ihf v (hg.2 v) htc hts hta)
  | orElse a b iha ihb =>
    refine (iha hg.1 hc hs ha).orElse hc (fun t => exec_kept (kept_failure input) hr.failure b t)
      (fun t => exec_kept (kept_failure input') hr'.failure b t) ?_
    intro t htc hts hta
    rcases hg.2 with hb | rfl
    · exact ihb hb htc hts hta
    · exact .same rfl hta
  | loop v f ih =>
    exact iterate_parallel (fun v t ht => exec_beyond hr (hg v) ht)
      (fun v t ht => exec_beyond hr' (hg v) ht)
      (fun v t => exec_kept (kept_failure input) hr.failure (f v) t)
      (fun v t htc hts hta => ih v (hg v) htc hts hta) _ _ v hc hs ha
  | nested g ih =>
    unfold exec
    cases limits.exceeded? s.depth with
    | some limit => exact .beyond trivial
    | none =>
      exact (ih (s := { s with depth := s.depth + 1 }) hg hc hs ha).restate rfl rfl rfl rfl
        (fun h => by rw [h])
  | observe level name reading g ih =>
    exact (ih hg hc hs ha).restate rfl rfl rfl rfl (fun h => by rw [h])

end Grammar

variable {input input' : Array Lexeme} {limits : Limits}

theorem Rule.run_parallel (hag : ∀ k < i, tokenAt input' k = tokenAt input k) (n n' : Nat)
    {r : Rule} (hr : r ≠ .ast) {s : State} (hc : s.cursor ≤ i) (hs : s.failure.furthest ≤ i)
    (ha : ¬ s.failure.Asked i (tokenAt input' i)) :
    Parallel i (tokenAt input i) (tokenAt input' i) (Rule.run input limits n r s)
      (Rule.run input' limits n' r s) := by
  induction n generalizing n' r s with
  | zero => exact .beyond trivial
  | succ n ih =>
    cases n' with
    | zero => exact .exhausted rfl
    | succ n' =>
      exact exec_parallel (run_tracked n) (run_tracked n') hag
        (fun q t hq htc hts hta => ih n' hq htc hts hta) (production_faithful hr) hc hs ha

/-- A whole source ends with the end of the input, which is asked for but never passed. -/
def Grammar.closing (pos : Nat) (ds : List (RootDecl Nat)) : Grammar (Ast Nat) := do
  let _ ← token .eof
  return ⟨pos, ds⟩

theorem Grammar.exec_closing {rules : (r : Rule) → State → Reply r.Result} (pos : Nat)
    (ds : List (RootDecl Nat)) (s : State) :
    exec input limits rules (closing pos ds) s =
      if (tokenAt input s.cursor).kind = .eof then ⟨.ok ⟨pos, ds⟩, s⟩
      else ⟨.mismatch, s.expecting [.kind .eof]⟩ := by
  split
  · next hk =>
    have hs : step input s = ⟨.ok (tokenAt input s.cursor), s⟩ := by simp [step, hk]
    have hm : exec input limits rules (expect [.kind .eof]) s =
        ⟨.ok (tokenAt input s.cursor), s⟩ := expect_ok.mpr ⟨by simp [Expectation.met, hk], hs⟩
    exact bind_ok.mpr ⟨_, s, bind_ok.mpr ⟨_, s, hm, rfl⟩, rfl⟩
  · next hk => exact bind_mismatch.mpr (.inl (token_mismatch.mpr ⟨hk, rfl⟩))

/-- How a second run ends if the first has failed at the index `i`: it fails there in the same way,
or it has found a token of another kind there and gone on. -/
def Reply.Decided {α : Type} (i : Nat) (l l' : Lexeme) (t : State) (r' : Reply α) : Prop :=
  r' = ⟨.mismatch, t⟩ ∧ ¬ t.failure.Asked i l' ∨
  (r'.outcome = .mismatch → i < r'.state.failure.furthest) ∧ l' ≠ l ∧
    (l'.kind = .operator ∨ t.failure.Asked i l') ∨
  r'.outcome = .exhausted

theorem Grammar.closing_within {rules : (r : Rule) → State → Reply r.Result} {pos : Nat}
    {ds : List (RootDecl Nat)} {s : State} :
    s.failure.Within (exec input limits rules (closing pos ds) s).state.failure := by
  rw [exec_closing]
  split
  · exact .refl _
  · exact (kept_failure input).expecting s [.kind .eof]

theorem Grammar.closing_beyond {rules : (r : Rule) → State → Reply r.Result} {pos : Nat}
    {m : Reply (List (RootDecl Nat))} (h : m.Beyond i) :
    (m.andThen fun ds u => exec input limits rules (closing pos ds) u).outcome = .mismatch →
      i < (m.andThen fun ds u => exec input limits rules (closing pos ds) u).state.failure.furthest := by
  cases m with
  | mk o u =>
    cases o with
    | fatal | exhausted => simp [Reply.andThen]
    | mismatch => exact fun _ => h
    | ok ds =>
      simp only [Reply.andThen, exec_closing]
      split
      · simp
      · rintro -
        rcases h with h | h
        · exact Nat.lt_of_lt_of_le h (State.le_expecting (by simp))
        · exact Nat.lt_of_lt_of_le h ((kept_failure input).expecting u [.kind .eof]).le

theorem Grammar.closing_decided {rules rules' : (r : Rule) → State → Reply r.Result} {pos : Nat}
    {m m' : Reply (List (RootDecl Nat))} {t : State}
    (hag : ∀ k < i, tokenAt input' k = tokenAt input k)
    (hm : Parallel i (tokenAt input i) (tokenAt input' i) m m')
    (h : (m.andThen fun ds u => exec input limits rules (closing pos ds) u) = ⟨.mismatch, t⟩)
    (ht : t.failure.furthest = i) :
    (m'.andThen fun ds u => exec input' limits rules' (closing pos ds) u).Decided i
      (tokenAt input i) (tokenAt input' i) t := by
  cases hm with
  | beyond hb =>
    have hlt : (m.andThen fun ds u => exec input limits rules (closing pos ds) u).outcome =
        .mismatch → _ := closing_beyond hb
    rw [h] at hlt
    have hpast : i < t.failure.furthest := hlt rfl
    omega
  | exhausted hx =>
    refine .inr (.inr ?_)
    unfold Reply.andThen
    rw [hx]
  | parted hb differ why =>
    refine .inr (.inl ⟨closing_beyond hb, differ, why.imp id fun hq => ?_⟩)
    have hk : m.state.failure.Within
        (m.andThen fun ds u => exec input limits rules (closing pos ds) u).state.failure :=
      Parallel.within_andThen fun ds u => closing_within
    rw [h] at hk
    exact hq.mono hk (Nat.le_of_eq ht)
  | same hsame clean =>
    subst hsame
    cases m' with
    | mk o u =>
      cases o with
      | fatal | exhausted => cases h
      | mismatch =>
        cases h
        exact .inl ⟨rfl, clean⟩
      | ok ds =>
        simp only [Reply.andThen, exec_closing] at h ⊢
        split at h
        · cases h
        · next hk =>
          cases h
          have hu : u.cursor ≤ i := ht ▸ State.le_expecting (by simp)
          have hf : u.failure.furthest ≤ i :=
            ht ▸ ((kept_failure input).expecting u [.kind .eof]).le
          rcases Nat.lt_or_eq_of_le hu with hlt | rfl
          · rw [hag _ hlt, if_neg hk]
            exact .inl ⟨rfl, fun hq => clean ((Failure.asked_expecting_before hlt).mp hq)⟩
          · have hasked : (u.expecting [.kind .eof]).failure.Asked u.cursor
                (tokenAt input' u.cursor) ↔ u.failure.Asked u.cursor (tokenAt input' u.cursor) ∨
                  [Expectation.kind .eof].any (·.met (tokenAt input' u.cursor)) = true :=
              Failure.asked_expecting hf
            simp only [List.any_cons, List.any_nil, Bool.or_false, Expectation.met,
              beq_iff_eq] at hasked
            split
            · next hk' =>
              refine .inr (.inl ⟨by simp, fun he => ?_, .inr (hasked.mpr (.inr hk'))⟩)
              rw [he] at hk'
              exact hk hk'
            · next hk' => exact .inl ⟨rfl, fun hq => (hasked.mp hq).elim clean hk'⟩

/-- How the reading of a whole source compares with that of another, if it has failed at the
index `i`. -/
theorem ast_decided (hag : ∀ k < i, tokenAt input' k = tokenAt input k) (n n' : Nat)
    {s t : State} (hc : s.cursor ≤ i) (hs : s.failure.furthest ≤ i)
    (ha : ¬ s.failure.Asked i (tokenAt input' i))
    (h : Rule.run input limits (n + 1) .ast s = ⟨.mismatch, t⟩) (ht : t.failure.furthest = i) :
    (Rule.run input' limits (n' + 1) .ast s).Decided i (tokenAt input i) (tokenAt input' i) t := by
  have hp : Parallel i (tokenAt input i) (tokenAt input' i)
      (exec input limits (Rule.run input limits n) (many (call .rootDecl)) s)
      (exec input' limits (Rule.run input' limits n') (many (call .rootDecl)) s) :=
    exec_parallel (Rule.run_tracked n) (Rule.run_tracked n') hag
      (fun q u hq huc hus hua => Rule.run_parallel hag n n' hq huc hus hua)
      (faithful_many.mpr (faithful_call.mpr (by simp))) hc hs ha
  exact closing_decided hag hp h ht

/-! Token lists -/

/-- The end of the input is the last of the tokens, and nowhere else among them. -/
def Closed (ts : List Token) : Prop :=
  ∃ front last, ts = front ++ [last] ∧ last.kind = .eof ∧ ∀ t ∈ front, t.kind ≠ .eof

theorem Closed.tokens {ts : List Token} (h : Closed ts) :
    (TokenStream.ofTokens ts).tokens = ts.toArray := by
  obtain ⟨front, last, rfl, hk, -⟩ := h
  exact TokenStream.ofTokens_tokens (by simp [hk])

theorem Closed.size {ts : List Token} (h : Closed ts) :
    (TokenStream.ofTokens ts).lexemes.size = ts.length := by
  simp [TokenStream.lexemes, h.tokens]

theorem Closed.lexeme {ts : List Token} (h : Closed ts) (k : Nat) :
    (TokenStream.ofTokens ts).lexeme k = (ts[k]?.map (·.toLexeme)).getD .eof := by
  simp [TokenStream.lexeme, TokenStream.lexemes, tokenAt, h.tokens]

theorem Closed.kind_eof {ts : List Token} (h : Closed ts) :
    ((TokenStream.ofTokens ts).lexeme (ts.length - 1)).kind = .eof := by
  rw [h.lexeme]
  obtain ⟨front, last, rfl, hk, -⟩ := h
  simp [hk]

theorem Closed.kind_ne_eof {ts : List Token} (h : Closed ts) {k : Nat} (hk : k + 1 < ts.length) :
    ((TokenStream.ofTokens ts).lexeme k).kind ≠ .eof := by
  rw [h.lexeme]
  obtain ⟨front, last, rfl, -, hf⟩ := h
  have hlt : k < front.length := by simpa using hk
  rw [List.getElem?_append_left hlt, List.getElem?_eq_getElem hlt]
  exact hf _ (List.getElem_mem hlt)

namespace TokenStream

theorem tree_mismatch {ts : TokenStream} (h : ts.reply.outcome = .mismatch) :
    ts.tree = .error (ts.mismatch ts.reply.state.failure) := by
  rw [tree_eq, h]
  rfl

/-- A token mismatch is reported only by a run that has ended with one. -/
theorem outcome_of_unexpected {ts : TokenStream} {xs : List String} {x : String} {p : Position}
    (h : ts.tree = .error ⟨.unexpectedToken xs x, p⟩) : ts.reply.outcome = .mismatch := by
  have hne := ts.reply_ne_exhausted
  rw [tree_eq] at h
  cases ho : ts.reply.outcome with
  | mismatch => rfl
  | exhausted => exact absurd ho hne
  | ok a =>
    rw [ho] at h
    cases h
  | fatal e =>
    rw [ho] at h
    cases e <;> cases h

end TokenStream

/-- Tokens that agree with others before an index of those reach up to this index. -/
theorem Closed.agree_length {T T' : List Token} (hT : Closed T) (hT' : Closed T')
    (hi : i < T.length)
    (hag : ∀ k < i, (TokenStream.ofTokens T').lexeme k = (TokenStream.ofTokens T).lexeme k) :
    i < T'.length := by
  apply Nat.lt_of_not_le
  intro hle
  have hpos : 0 < T'.length := by
    obtain ⟨front, last, rfl, -⟩ := hT'
    simp
  have hk := hT'.kind_eof
  rw [hag _ (by omega)] at hk
  exact hT.kind_ne_eof (by omega) hk

theorem TokenStream.reply_decided {ts ts' : TokenStream}
    (hag : ∀ k < ts.reply.state.failure.furthest, ts'.lexeme k = ts.lexeme k)
    (ho : ts.reply.outcome = .mismatch) :
    ts'.reply.Decided ts.reply.state.failure.furthest
      (ts.lexeme ts.reply.state.failure.furthest) (ts'.lexeme ts.reply.state.failure.furthest)
      ts.reply.state := by
  have hn : ∀ input : Array Lexeme, openRules input = openRules input - 1 + 1 := by
    intro input
    unfold openRules
    omega
  have hr : Rule.run ts.lexemes .standard (openRules ts.lexemes - 1 + 1) .ast .start =
      ⟨.mismatch, ts.reply.state⟩ := by
    rw [← hn, ← reply_eq, ← ho]
  have hclean : ¬ State.start.failure.Asked ts.reply.state.failure.furthest
      (ts'.lexeme ts.reply.state.failure.furthest) := by
    rintro ⟨-, e, he, -⟩
    cases he
  have hd := ast_decided hag (openRules ts.lexemes - 1) (openRules ts'.lexemes - 1)
    (Nat.zero_le _) (Nat.zero_le _) hclean hr rfl
  rwa [← hn, ← reply_eq] at hd

/-- Whether reading a whole source gets further than the index `i`: it succeeds, fails behind it, or
ends with an error that no expectation decides. -/
def TokenStream.Passes (ts : TokenStream) (i : Nat) : Prop :=
  (∃ a, ts.tree = .ok a) ∨
  (ts.tree = .error (ts.mismatch ts.reply.state.failure) ∧ i < ts.reply.state.failure.furthest) ∨
  (∃ text p, ts.tree = .error ⟨.numberOutOfRange text, p⟩) ∨
  ∃ limit p, ts.tree = .error ⟨.nestingTooDeep limit, p⟩

theorem TokenStream.passes_of_mismatch {ts : TokenStream}
    (h : ts.reply.outcome = .mismatch → i < ts.reply.state.failure.furthest) : ts.Passes i := by
  have hne := ts.reply_ne_exhausted
  cases ho : ts.reply.outcome with
  | mismatch => exact .inr (.inl ⟨tree_mismatch ho, h ho⟩)
  | exhausted => exact absurd ho hne
  | ok a =>
    refine .inl ⟨a.map ts.position, ?_⟩
    rw [tree_eq, ho]
    rfl
  | fatal e =>
    cases e with
    | numberOutOfRange text index =>
      refine .inr (.inr (.inl ⟨text, ts.position index, ?_⟩))
      rw [tree_eq, ho]
      rfl
    | nestingTooDeep limit index =>
      refine .inr (.inr (.inr ⟨limit, ts.position index, ?_⟩))
      rw [tree_eq, ho]
      rfl

/-- The expected set of a token mismatch is exact up to binary operators, and is decided by what
comes before it. Tokens that agree before the furthest index fail there with the same record,
whatever follows, if the token there is the same or if it meets no expectation and is no operator;
if it meets one of the expectations, reading gets further. -/
theorem expected_exact {T T' : List Token} (hT : Closed T) (hT' : Closed T') {xs : List String}
    {x : String} {p : Position}
    (h : (TokenStream.ofTokens T).tree = .error ⟨.unexpectedToken xs x, p⟩)
    (hag : ∀ k < (TokenStream.ofTokens T).reply.state.failure.furthest,
      (TokenStream.ofTokens T').lexeme k = (TokenStream.ofTokens T).lexeme k) :
    let ts := TokenStream.ofTokens T
    let ts' := TokenStream.ofTokens T'
    let f := ts.reply.state.failure
    let l' := ts'.lexeme f.furthest
    f.furthest < T.length ∧ f.furthest < T'.length ∧ ts.tree = .error (ts.mismatch f) ∧
    (l' = ts.lexeme f.furthest ∨ (∀ e ∈ f.expected, e.met l' = false) ∧ l'.kind ≠ .operator →
      ts'.tree = .error (ts'.mismatch f) ∧ ts'.reply.state.failure = f) ∧
    ((∃ e ∈ f.expected, e.met l' = true) → ts'.Passes f.furthest) := by
  intro ts ts' f l'
  have ho : ts.reply.outcome = .mismatch := TokenStream.outcome_of_unexpected h
  have hlt : f.furthest < T.length := by
    have h := (TokenStream.ofTokens T).furthest_lt
    rwa [hT.tokens, List.size_toArray] at h
  have hd : ts'.reply.Decided f.furthest (ts.lexeme f.furthest) l' ts.reply.state :=
    TokenStream.reply_decided hag ho
  refine ⟨hlt, hT.agree_length hT' hlt hag, TokenStream.tree_mismatch ho, ?_, ?_⟩
  · intro hl
    rcases hd with ⟨hsame, -⟩ | ⟨-, differ, why⟩ | hx
    · have ho' : ts'.reply.outcome = .mismatch := by rw [hsame]
      have hf' : ts'.reply.state.failure = f := by rw [hsame]
      exact ⟨hf' ▸ TokenStream.tree_mismatch ho', hf'⟩
    · rcases hl with hl | ⟨hnone, hop⟩
      · exact absurd hl differ
      · rcases why with why | ⟨-, e, he, hm⟩
        · exact absurd why hop
        · rw [hnone e he] at hm
          cases hm
    · exact absurd hx ts'.reply_ne_exhausted
  · rintro ⟨e, he, hm⟩
    rcases hd with ⟨-, clean⟩ | ⟨hpast, -, -⟩ | hx
    · exact absurd ⟨rfl, e, he, hm⟩ clean
    · exact TokenStream.passes_of_mismatch hpast
    · exact absurd hx ts'.reply_ne_exhausted

/-- Tokens that stand nowhere in particular. -/
def unplaced (ls : List Lexeme) : List Token :=
  ls.map fun l => ⟨l, .startOf defaultFile, .startOf defaultFile⟩

theorem closed_unplaced {ls : List Lexeme} (h : ∀ l ∈ ls, l.kind ≠ .eof) :
    Closed (unplaced (ls ++ [.eof])) := by
  refine ⟨unplaced ls, ⟨.eof, .startOf defaultFile, .startOf defaultFile⟩, ?_, rfl, ?_⟩
  · simp [unplaced]
  · intro t ht
    obtain ⟨l, hl, rfl⟩ := List.mem_map.mp ht
    exact h l hl

theorem Except.eq_error {ε α : Type} {x : Except ε α} {e : ε}
    (h : (match x with
      | .ok _ => none
      | .error e => some e) = some e) : x = .error e := by
  cases x with
  | ok a => cases h
  | error e' =>
    cases h
    rfl

theorem expected_exact_name :
    (TokenStream.ofTokens (unplaced [⟨.keyword, "let"⟩, .eof])).tree =
        .error ⟨.unexpectedToken ["<ident>"] "EOF", .startOf defaultFile⟩ ∧
      (TokenStream.ofTokens (unplaced [⟨.keyword, "let"⟩, ⟨.ident, "x"⟩, .eof])).Passes 1 := by
  have hT : Closed (unplaced ([⟨.keyword, "let"⟩] ++ [.eof])) := closed_unplaced (by simp)
  have hT' : Closed (unplaced ([⟨.keyword, "let"⟩, ⟨.ident, "x"⟩] ++ [.eof])) :=
    closed_unplaced (by simp)
  have h : (TokenStream.ofTokens (unplaced [⟨.keyword, "let"⟩, .eof])).tree =
      .error ⟨.unexpectedToken ["<ident>"] "EOF", .startOf defaultFile⟩ :=
    Except.eq_error (by decide +kernel)
  have hf : (TokenStream.ofTokens (unplaced [⟨.keyword, "let"⟩, .eof])).reply.state.failure =
      ⟨1, [.kind .ident]⟩ := by decide +kernel
  have he := (expected_exact hT hT' h (by
    intro k hk
    have hk' : k < (Failure.mk 1 [.kind .ident]).furthest := by rwa [← hf]
    obtain rfl : k = 0 := Nat.lt_one_iff.mp hk'
    decide +kernel)).2.2.2.2
  refine ⟨h, ?_⟩
  have hfurthest : (TokenStream.ofTokens (unplaced ([⟨.keyword, "let"⟩] ++
      [.eof]))).reply.state.failure = ⟨1, [.kind .ident]⟩ := hf
  rw [hfurthest] at he
  exact he ⟨.kind .ident, by simp, by decide +kernel⟩

end Syntree
