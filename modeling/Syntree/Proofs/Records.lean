import Syntree.Proofs.Progress

/-!
What is put on record: a rule that does not match has recorded what it asked for, at the index where
it started or later. So a run that has left an index behind never fails there any more.
-/

namespace Syntree

namespace Grammar

variable {α β : Type} {input : Array Lexeme} {limits : Limits}
  {rules : (r : Rule) → State → Reply r.Result}

/-- Whether the text of a grammar shows that it puts on record what it asks for, and that it asks
for the end of the input nowhere. Only behind another alternative may it fail without a word. -/
def Faithful : {α : Type} → Grammar α → Prop
  | _, done _ => True
  | _, bind g f => g.Faithful ∧ ∀ u, (f u).Faithful
  | _, here => True
  | _, expect es => es ≠ [] ∧ .kind .eof ∉ es
  | _, operatorAbove _ => True
  | _, reject _ => True
  | _, orElse a b => a.Faithful ∧ (b.Faithful ∨ b = fail)
  | _, loop _ f => ∀ v, (f v).Faithful
  | _, nested g => g.Faithful
  | _, observe _ _ _ g => g.Faithful
  | _, call r => r ≠ .ast
  | _, fail => False
  | _, peek => False
  | _, advance => False

section Syntax

variable {g : Grammar α}

@[simp] theorem faithful_pure {v : α} : (pure v : Grammar α).Faithful := trivial

@[simp] theorem faithful_bind {g : Grammar β} {f : β → Grammar α} :
    (g >>= f).Faithful ↔ g.Faithful ∧ ∀ u, (f u).Faithful := .rfl

@[simp] theorem faithful_here : here.Faithful := trivial

@[simp] theorem faithful_expect {es : List Expectation} :
    (expect es).Faithful ↔ es ≠ [] ∧ .kind .eof ∉ es := .rfl

@[simp] theorem faithful_operatorAbove {min : Power} : (operatorAbove min).Faithful := trivial

@[simp] theorem faithful_reject {e : Fatal} : (reject e : Grammar α).Faithful := trivial

@[simp] theorem faithful_nested : (nested g).Faithful ↔ g.Faithful := .rfl

@[simp] theorem faithful_call {r : Rule} :
    @Faithful (no_index r.Result) (call r) ↔ r ≠ .ast := .rfl

@[simp] theorem faithful_loop {v : β} {f : β → Grammar (Option β)} :
    (loop v f).Faithful ↔ ∀ v, (f v).Faithful := .rfl

@[simp] theorem faithful_literal {text : String} : (literal text).Faithful := by
  simp [literal]

@[simp] theorem faithful_token {kind : TokenKind} : (token kind).Faithful ↔ kind ≠ .eof := by
  simp [token, eq_comm]

@[simp] theorem faithful_attempt : (attempt g).Faithful ↔ g.Faithful := by
  change ((g >>= fun v => pure (some v)).Faithful ∧ (True ∨ _)) ↔ _
  simp

@[simp] theorem faithful_many : (many g).Faithful ↔ g.Faithful := by
  simp [many]

theorem choice_ne_fail {gs : List (Grammar α)} : choice (g :: gs) ≠ fail := by
  intro h
  cases h

@[simp] theorem faithful_choice {gs : List (Grammar α)} :
    (choice (g :: gs)).Faithful ↔ g.Faithful ∧ ∀ g' ∈ gs, g'.Faithful := by
  induction gs generalizing g with
  | nil =>
    change (g.Faithful ∧ (False ∨ fail = fail)) ↔ _
    simp
  | cons a gs ih =>
    change (g.Faithful ∧ ((choice (a :: gs)).Faithful ∨ choice (a :: gs) = fail)) ↔ _
    simp [ih, choice_ne_fail]

@[simp] theorem faithful_trailing {text : String} {items : List α} :
    (trailing text items).Faithful := by
  unfold trailing
  split <;> simp [Grammar.optional]

end Syntax

end Grammar

open Grammar

@[simp] theorem faithful_number : number.Faithful := by
  unfold number
  simp only [faithful_bind, faithful_here, faithful_token, true_and]
  refine fun _ => ⟨by simp, fun text => ?_⟩
  split <;> simp

theorem faithful_binary (min : Power) : (Grammar.binary min).Faithful := by
  refine ⟨nofun, fun u left => ⟨trivial, fun o => ?_⟩⟩
  cases o with
  | none => trivial
  | some o => exact ⟨nofun, fun _ => trivial⟩

section Productions

open Productions

theorem Rule.production_faithful {r : Rule} (hr : r ≠ .ast) : r.production.Faithful := by
  cases r
  case ast => exact absurd rfl hr
  case binary min => exact faithful_binary min
  all_goals simp

end Productions

/-- What is asked of rules: they keep what runs keep, and a rule that does not match has put on
record what it asked for, where it started or later. -/
structure Tracked (rules : (r : Rule) → State → Reply r.Result) : Prop where
  cursor (r : Rule) (s : State) : s.cursor ≤ (rules r s).state.cursor
  failure (r : Rule) (s : State) : s.failure.Within (rules r s).state.failure
  records {r : Rule} {s t : State} : r ≠ .ast → rules r s = ⟨.mismatch, t⟩ →
    s.cursor ≤ t.failure.furthest

theorem Failure.Within.le {f g : Failure} (h : f.Within g) : f.furthest ≤ g.furthest := by
  rcases h with h | ⟨h, -⟩
  · exact Nat.le_of_lt h
  · exact Nat.le_of_eq h

theorem Failure.le_record (f : Failure) (i : Nat) (e : Expectation) :
    i ≤ (f.record i e).furthest := by
  unfold Failure.record
  split
  · exact Nat.le_refl i
  · split
    · exact Nat.le_refl i
    · next h _ => exact Nat.le_of_not_lt h

theorem State.le_expecting {s : State} {es : List Expectation} (h : es ≠ []) :
    s.cursor ≤ (s.expecting es).failure.furthest := by
  cases es with
  | nil => exact absurd rfl h
  | cons e es =>
    -- behind the first expectation the record only grows
    have hrest : ({ s with failure := s.failure.record s.cursor e } : State).failure.Within
        (State.expecting { s with failure := s.failure.record s.cursor e } es).failure :=
      (kept_failure #[]).expecting _ es
    exact Nat.le_trans (s.failure.le_record s.cursor e) hrest.le

namespace Grammar

variable {α β : Type} {input : Array Lexeme} {limits : Limits}
  {rules : (r : Rule) → State → Reply r.Result}

theorem iterate_records {f : β → State → Reply (Option β)}
    (hc : ∀ v t, t.cursor ≤ (f v t).state.cursor)
    (hf : ∀ v t u, f v t = ⟨.mismatch, u⟩ → t.cursor ≤ u.failure.furthest) (n : Nat) (v : β)
    {s t : State} (h : iterate f n v s = ⟨.mismatch, t⟩) : s.cursor ≤ t.failure.furthest := by
  induction n generalizing v s with
  | zero => cases h
  | succ n ih =>
    unfold iterate at h
    cases hr : f v s with
    | mk o u =>
      have hsu : s.cursor ≤ u.cursor := by simpa [hr] using hc v s
      rw [hr] at h
      cases o with
      | fatal | exhausted => cases h
      | mismatch =>
        cases h
        exact hf v s _ hr
      | ok o =>
        cases o with
        | none => cases h
        | some w => exact Nat.le_trans hsu (ih w h)

theorem exec_records (hr : Tracked rules) {g : Grammar α} (hg : g.Faithful) {s t : State}
    (h : exec input limits rules g s = ⟨.mismatch, t⟩) : s.cursor ≤ t.failure.furthest := by
  induction g generalizing s t with
  | done | here | reject => cases h
  | fail | peek | advance => exact absurd hg id
  | call r => exact hr.records hg h
  | expect es =>
    obtain ⟨-, rfl⟩ := expect_mismatch.mp h
    exact State.le_expecting hg.1
  | operatorAbove min =>
    unfold exec at h
    split at h
    · cases h
    · split at h <;> cases h
  | bind g f ihg ihf =>
    rcases bind_mismatch.mp h with h | ⟨u, t', hu, h⟩
    · exact ihg hg.1 h
    · exact Nat.le_trans (exec_ok_cursor hr.cursor hu) (ihf u (hg.2 u) h)
  | orElse a b iha ihb =>
    rcases orElse_mismatch.mp h with ⟨h, -⟩ | ⟨t', h, -, hb⟩
    · exact iha hg.1 h
    · have hk : t'.failure.Within
          (exec input limits rules b { t' with cursor := s.cursor }).state.failure :=
        exec_kept (kept_failure input) hr.failure b { t' with cursor := s.cursor }
      rw [hb] at hk
      exact Nat.le_trans (iha hg.1 h) hk.le
  | loop v f ih =>
    exact iterate_records (fun u t => exec_cursor hr.cursor (f u) t)
      (fun u t t' ht => ih u (hg u) ht) _ v h
  | nested g ih =>
    obtain ⟨t', ht, rfl⟩ := nested_mismatch h
    have hd := ih hg ht
    exact hd
  | observe level name reading g ih =>
    cases hg' : exec input limits rules g s with
    | mk o u =>
      change (⟨(exec input limits rules g s).outcome, _⟩ : Reply _) = _ at h
      simp only [hg', Reply.mk.injEq] at h
      obtain ⟨rfl, rfl⟩ := h
      have hd := ih hg hg'
      exact hd

end Grammar

theorem Rule.run_tracked {input : Array Lexeme} {limits : Limits} (n : Nat) :
    Tracked (Rule.run input limits n) where
  cursor := Rule.run_kept (kept_cursor input) n
  failure := Rule.run_kept (kept_failure input) n
  records := by
    intro r s t hr h
    induction n generalizing r s t with
    | zero => cases h
    | succ n ih =>
      have hn : Tracked (Rule.run input limits n) :=
        ⟨Rule.run_kept (kept_cursor input) n, Rule.run_kept (kept_failure input) n, ih⟩
      exact exec_records hn (production_faithful hr) h

/-! Getting past an index -/

/-- A state that has left the index `i` behind, with its cursor or with its failure record. -/
def State.Past (i : Nat) (s : State) : Prop :=
  i < s.cursor ∨ i < s.failure.furthest

/-- A run after which a mismatch can no longer be reported at the index `i` or before. -/
def Reply.Beyond {α : Type} (i : Nat) (r : Reply α) : Prop :=
  match r.outcome with
  | .ok _ => r.state.Past i
  | .mismatch => i < r.state.failure.furthest
  | .fatal _ | .exhausted => True

namespace Reply

variable {α β : Type} {i : Nat}

theorem beyond_of_furthest {r : Reply α} (h : i < r.state.failure.furthest) : r.Beyond i := by
  unfold Reply.Beyond
  split
  · exact .inr h
  · exact h
  all_goals trivial

theorem Beyond.restate {r : Reply α} {t : State} (h : r.Beyond i)
    (hc : t.cursor = r.state.cursor) (hf : t.failure = r.state.failure) :
    (⟨r.outcome, t⟩ : Reply α).Beyond i := by
  unfold Reply.Beyond State.Past at h ⊢
  rw [hc, hf]
  exact h

theorem Beyond.andThen {r : Reply β} {f : β → State → Reply α} (h : r.Beyond i)
    (hf : ∀ v t, t.Past i → (f v t).Beyond i) : (r.andThen f).Beyond i := by
  cases r with
  | mk o t =>
    cases o with
    | ok v => exact hf v t h
    | mismatch => exact h
    | fatal | exhausted => trivial

theorem Beyond.orElse {limits : Limits} {k : Nat} {r : Reply α} {f : State → Reply α}
    (h : r.Beyond i) (hf : ∀ t : State, t.failure.Within (f t).state.failure) :
    (r.orElse limits k f).Beyond i := by
  cases r with
  | mk o t =>
    cases o with
    | ok v => exact h
    | fatal | exhausted => trivial
    | mismatch =>
      unfold Reply.orElse
      cases hc : limits.committed k t.cursor with
      | true => exact h
      | false => exact beyond_of_furthest (Nat.lt_of_lt_of_le h (hf { t with cursor := k }).le)

end Reply

theorem Grammar.exec_beyond {α : Type} {input : Array Lexeme} {limits : Limits} {i : Nat}
    {rules : (r : Rule) → State → Reply r.Result} (hr : Tracked rules) {g : Grammar α}
    (hg : g.Faithful) {s : State} (hs : s.Past i) : (exec input limits rules g s).Beyond i := by
  have hc : s.cursor ≤ (exec input limits rules g s).state.cursor := exec_cursor hr.cursor g s
  have hk : s.failure.Within (exec input limits rules g s).state.failure :=
    exec_kept (kept_failure input) hr.failure g s
  rcases hs with hs | hs
  · cases he : exec input limits rules g s with
    | mk o t =>
      rw [he] at hc
      cases o with
      | ok v => exact .inl (Nat.lt_of_lt_of_le hs hc)
      | mismatch => exact Nat.lt_of_lt_of_le hs (exec_records hr hg he)
      | fatal | exhausted => trivial
  · exact Reply.beyond_of_furthest (Nat.lt_of_lt_of_le hs hk.le)

/-! What is on record about a token -/

/-- Whether the token `l` meets an expectation that has failed at the index `i`. -/
def Failure.Asked (i : Nat) (l : Lexeme) (f : Failure) : Prop :=
  f.furthest = i ∧ ∃ e ∈ f.expected, e.met l = true

namespace Failure

variable {i c : Nat} {l : Lexeme} {f g : Failure}

theorem Asked.mono (h : f.Asked i l) (hfg : f.Within g) (hg : g.furthest ≤ i) : g.Asked i l := by
  obtain ⟨rfl, e, he, hm⟩ := h
  rcases hfg with hlt | ⟨heq, hsub⟩
  · omega
  · exact ⟨heq.symm, e, hsub e he, hm⟩

theorem furthest_record_le {e : Expectation} (hc : c ≤ i) (hf : f.furthest ≤ i) :
    (f.record c e).furthest ≤ i := by
  unfold Failure.record
  split
  · exact hc
  · split
    · exact hc
    · exact hf

theorem asked_record {e : Expectation} (hf : f.furthest ≤ i) :
    (f.record i e).Asked i l ↔ f.Asked i l ∨ e.met l = true := by
  unfold Failure.record Failure.Asked
  split
  · next hlt =>
    have hne : f.furthest ≠ i := by omega
    simp [hne]
  · next hge =>
    have heq : f.furthest = i := by omega
    simp only [heq, if_true, true_and, List.mem_insert_iff]
    grind

theorem asked_record_before {e : Expectation} (hc : c < i) :
    (f.record c e).Asked i l ↔ f.Asked i l := by
  unfold Failure.record Failure.Asked
  split
  · next hlt =>
    have hne : f.furthest ≠ i := by omega
    simp [hne, Nat.ne_of_lt hc]
  · split
    · next heq => simp [heq, Nat.ne_of_lt hc]
    · exact .rfl

/-- What a token meets after the expectations `es` have failed at the index `i`. -/
theorem asked_expecting {es : List Expectation} (hf : f.furthest ≤ i) :
    (es.foldl (fun f e => f.record i e) f).Asked i l ↔
      f.Asked i l ∨ es.any (·.met l) = true := by
  induction es generalizing f with
  | nil => simp
  | cons e es ih =>
    rw [List.foldl_cons, ih (furthest_record_le (Nat.le_refl i) hf), asked_record hf,
      List.any_cons, Bool.or_eq_true, or_assoc]

theorem asked_expecting_before {es : List Expectation} (hc : c < i) :
    (es.foldl (fun f e => f.record c e) f).Asked i l ↔ f.Asked i l := by
  induction es generalizing f with
  | nil => exact .rfl
  | cons e es ih => rw [List.foldl_cons, ih, asked_record_before hc]

end Failure

end Syntree
