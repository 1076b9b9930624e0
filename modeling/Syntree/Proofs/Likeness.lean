import Syntree.Proofs.Records

/-!
Two runs of one grammar from one place that differ in what is on record. Nothing but the record
depends on the record, and so the runs go the same way; what is asked of the two records is carried
along them.
-/

namespace Syntree

open Grammar (exec step iterate expect)

/-- How two failure records may differ: while runs stand at an index, and behind a mismatch. What
does not match is put on both. -/
structure Likeness where
  held : Nat → Failure → Failure → Prop
  missed : Failure → Failure → Prop
  held_of_missed {c : Nat} {f g : Failure} : missed f g → held c f g
  held_next {c : Nat} {f g : Failure} : held c f g → held (c + 1) f g
  record {c : Nat} {f g : Failure} (e : Expectation) :
    held c f g → missed (f.record c e) (g.record c e)

/-- The records may differ in all that they hold. -/
def Likeness.any : Likeness where
  held _ _ _ := True
  missed _ _ := True
  held_of_missed _ := trivial
  held_next _ := trivial
  record _ _ := trivial

namespace Likeness

variable {α β : Type} {L : Likeness}

section

variable (L)

/-- States at the same place, from which the same is read. -/
structure Beside (s s' : State) : Prop where
  cursor : s.cursor = s'.cursor
  depth : s.depth = s'.depth
  record : L.held s.cursor s.failure s'.failure

/-- States that a mismatch has left at the same place. -/
structure Missed (s s' : State) : Prop where
  cursor : s.cursor = s'.cursor
  depth : s.depth = s'.depth
  record : L.missed s.failure s'.failure

/-- Runs that end alike, unless the first was cut short. -/
inductive Alike : Reply α → Reply α → Prop where
  | ok {v : α} {t t' : State} (beside : L.Beside t t') : Alike ⟨.ok v, t⟩ ⟨.ok v, t'⟩
  | mismatch {t t' : State} (missed : L.Missed t t') : Alike ⟨.mismatch, t⟩ ⟨.mismatch, t'⟩
  | fatal {e : Fatal} {t t' : State} (cursor : t.cursor = t'.cursor) :
      Alike ⟨.fatal e, t⟩ ⟨.fatal e, t'⟩
  | exhausted {t : State} {r' : Reply α} : Alike ⟨.exhausted, t⟩ r'

end

theorem Missed.beside {s s' : State} (h : L.Missed s s') : L.Beside s s' :=
  ⟨h.cursor, h.depth, L.held_of_missed h.record⟩

theorem Missed.rewind {s s' : State} (h : L.Missed s s') (c : Nat) :
    L.Missed { s with cursor := c } { s' with cursor := c } :=
  ⟨rfl, h.depth, h.record⟩

theorem Alike.andThen {r r' : Reply β} {f f' : β → State → Reply α} (h : L.Alike r r')
    (hf : ∀ v t t', L.Beside t t' → L.Alike (f v t) (f' v t')) :
    L.Alike (r.andThen f) (r'.andThen f') := by
  cases h with
  | ok beside => exact hf _ _ _ beside
  | mismatch missed => exact .mismatch missed
  | fatal cursor => exact .fatal cursor
  | exhausted => exact .exhausted

theorem Alike.orElse {limits : Limits} {i : Nat} {r r' : Reply α} {f f' : State → Reply α}
    (h : L.Alike r r') (hf : ∀ t t', r = ⟨.mismatch, t⟩ → L.Missed t t' →
      L.Alike (f { t with cursor := i }) (f' { t' with cursor := i })) :
    L.Alike (r.orElse limits i f) (r'.orElse limits i f') := by
  cases h with
  | ok beside => exact .ok beside
  | fatal cursor => exact .fatal cursor
  | exhausted => exact .exhausted
  | mismatch missed =>
    simp only [Reply.orElse, missed.cursor]
    split
    · exact .mismatch missed
    · exact hf _ _ rfl missed

/-- Of a state only cursor, depth and record matter. -/
def Restates (d : Nat → Nat) (t u : State) : Prop :=
  u.cursor = t.cursor ∧ u.depth = d t.depth ∧ u.failure = t.failure

theorem Alike.restate {r r' : Reply α} {u u' : State} {d : Nat → Nat} (h : L.Alike r r')
    (hu : Restates d r.state u) (hu' : Restates d r'.state u') :
    L.Alike ⟨r.outcome, u⟩ ⟨r'.outcome, u'⟩ := by
  obtain ⟨hc, hd, hf⟩ := hu
  obtain ⟨hc', hd', hf'⟩ := hu'
  cases h with
  | ok beside =>
    refine .ok ⟨?_, ?_, ?_⟩
    · rw [hc, hc', beside.cursor]
    · rw [hd, hd', beside.depth]
    · rw [hc, hf, hf']
      exact beside.record
  | mismatch missed =>
    refine .mismatch ⟨?_, ?_, ?_⟩
    · rw [hc, hc', missed.cursor]
    · rw [hd, hd', missed.depth]
    · rw [hf, hf']
      exact missed.record
  | fatal cursor => exact .fatal (by rw [hc, hc', cursor])
  | exhausted => exact .exhausted

theorem Beside.expecting {s s' : State} {es : List Expectation} (h : L.Beside s s')
    (he : es ≠ []) : L.Missed (s.expecting es) (s'.expecting es) := by
  refine ⟨h.cursor, h.depth, ?_⟩
  have hrest {f g : Failure} (hfg : L.missed f g) (es : List Expectation) :
      L.missed (es.foldl (fun f e => f.record s.cursor e) f)
        (es.foldl (fun f e => f.record s.cursor e) g) := by
    induction es generalizing f g with
    | nil => exact hfg
    | cons e es ih => exact ih (L.record e (L.held_of_missed hfg))
  cases es with
  | nil => exact absurd rfl he
  | cons e es =>
    simp only [State.expecting, ← h.cursor, List.foldl_cons]
    exact hrest (L.record e h.record) es

section

variable {input : Array Lexeme} {limits : Limits}
  {rules rules' : (r : Rule) → State → Reply r.Result}

theorem Beside.step {s s' : State} (h : L.Beside s s') :
    L.Beside (step input s).state (step input s').state := by
  simp only [Grammar.step, ← h.cursor]
  split
  · exact h
  · exact ⟨rfl, h.depth, L.held_next h.record⟩

theorem step_alike {s s' : State} (h : L.Beside s s') :
    L.Alike (step input s) (step input s') := by
  have hl : step input s' = ⟨.ok (Grammar.tokenAt input s.cursor), (step input s').state⟩ := by
    simp only [step, h.cursor]
  rw [hl]
  exact .ok h.step

theorem expect_alike {es : List Expectation} (he : es ≠ []) {s s' : State} (h : L.Beside s s') :
    L.Alike (exec input limits rules (expect es) s) (exec input limits rules' (expect es) s') := by
  unfold exec
  rw [← h.cursor]
  split
  · exact step_alike h
  · exact .mismatch (h.expecting he)

theorem iterate_alike {f f' : β → State → Reply (Option β)}
    (hf : ∀ v t t', L.Beside t t' → L.Alike (f v t) (f' v t')) (n : Nat) (v : β) {s s' : State}
    (h : L.Beside s s') : L.Alike (iterate f n v s) (iterate f' n v s') := by
  induction n generalizing v s s' with
  | zero => exact .exhausted
  | succ n ih =>
    refine (hf v s s' h).andThen fun o t t' ht => ?_
    cases o with
    | none => exact .ok ht
    | some u => exact ih u ht

/-- A grammar that puts on record what it asks for goes the same way with another record. -/
theorem exec_alike
    (hr : ∀ r s s', r ≠ .ast → L.Beside s s' → L.Alike (rules r s) (rules' r s')) {g : Grammar α}
    (hg : g.Faithful) {s s' : State} (h : L.Beside s s') :
    L.Alike (exec input limits rules g s) (exec input limits rules' g s') := by
  induction g generalizing s s' with
  | done v => exact .ok h
  | reject e => exact .fatal h.cursor
  | fail | peek | advance => exact absurd hg id
  | call r => exact hr r s s' hg h
  | expect es => exact expect_alike hg.1 h
  | here =>
    unfold exec
    rw [h.cursor]
    exact .ok h
  | operatorAbove min =>
    unfold exec
    rw [← h.cursor]
    split
    · exact .ok h
    · split
      · exact .ok h
      · exact .ok h.step
  | bind g f ihg ihf => exact (ihg hg.1 h).andThen fun v t t' ht => ihf v (hg.2 v) ht
  | orElse a b iha ihb =>
    unfold exec
    rw [← h.cursor]
    refine (iha hg.1 h).orElse fun t t' _ ht => ?_
    rcases hg.2 with hb | rfl
    · exact ihb hb (ht.rewind _).beside
    · exact .mismatch (ht.rewind _)
  | loop v f ih =>
    unfold exec
    rw [← h.cursor]
    exact iterate_alike (fun v t t' ht => ih v (hg v) ht) _ v h
  | nested g ih =>
    unfold exec
    rw [← h.depth]
    split
    · rw [← h.cursor]
      exact .fatal h.cursor
    · have hdeeper : L.Beside { s with depth := s.depth + 1 } { s' with depth := s.depth + 1 } :=
        ⟨h.cursor, rfl, h.record⟩
      exact (ih hg hdeeper).restate (d := (· - 1)) ⟨rfl, rfl, rfl⟩ ⟨rfl, rfl, rfl⟩
  | observe level name reading g ih =>
    exact (ih hg h).restate (d := id) ⟨rfl, rfl, rfl⟩ ⟨rfl, rfl, rfl⟩

theorem run_alike (n : Nat) {r : Rule} (hr : r ≠ .ast) {s s' : State} (h : L.Beside s s') :
    L.Alike (Rule.run input limits n r s) (Rule.run input limits n r s') := by
  induction n generalizing r s s' with
  | zero => exact .exhausted
  | succ n ih => exact exec_alike (fun _ _ _ hq ht => ih hq ht) (Rule.production_faithful hr) h

end

end Likeness

end Syntree
