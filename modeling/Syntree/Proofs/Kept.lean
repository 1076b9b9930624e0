import Syntree.Proofs.Exec

/-!
What every run keeps, proved from what its single steps keep: the cursor does not fall behind the
start of the run, the failure record only grows, and neither leaves the input.
-/

namespace Syntree

/-- A relation between the state before a run and the state after it that holds of all runs, since
it holds of the steps that runs are made of. -/
structure Kept (input : Array Lexeme) (R : State → State → Prop) : Prop where
  refl (s : State) : R s s
  trans {s t u : State} : R s t → R t u → R s u
  step (s : State) : R s (Grammar.step input s).state
  expecting (s : State) (es : List Expectation) : R s (s.expecting es)
  rewind {s t : State} : R s t → R s { t with cursor := s.cursor }
  nested {s t : State} (d d' : Nat) : R { s with depth := d } t → R s { t with depth := d' }
  noted {s t : State} (notes : List Note) : R s t → R s { t with notes := notes }

namespace Grammar

variable {α β : Type} {input : Array Lexeme} {limits : Limits}
  {rules : (r : Rule) → State → Reply r.Result} {R : State → State → Prop}

theorem andThen_kept (hR : Kept input R) {r : Reply β} {f : β → State → Reply α} {s : State}
    (hr : R s r.state) (hf : ∀ v t, R t (f v t).state) : R s (r.andThen f).state := by
  unfold Reply.andThen
  split
  · exact hR.trans hr (hf _ _)
  all_goals exact hr

theorem iterate_kept (hR : Kept input R) {f : β → State → Reply (Option β)}
    (hf : ∀ v t, R t (f v t).state) (n : Nat) (v : β) (s : State) :
    R s (iterate f n v s).state := by
  induction n generalizing v s with
  | zero => exact hR.refl s
  | succ n ih =>
    unfold iterate
    apply andThen_kept hR (hf v s)
    intro o t
    cases o with
    | none => exact hR.refl t
    | some v => exact ih v t

theorem exec_kept (hR : Kept input R) (hr : ∀ r s, R s (rules r s).state) (g : Grammar α)
    (s : State) : R s (exec input limits rules g s).state := by
  induction g generalizing s with
  | done | here | peek | fail | reject => exact hR.refl s
  | advance => exact hR.step s
  | call r => exact hr r s
  | bind g f ihg ihf => exact andThen_kept hR (ihg s) ihf
  | loop v f ih => exact iterate_kept hR ih _ v s
  | expect es =>
    unfold exec
    split
    · exact hR.step s
    · exact hR.expecting s es
  | operatorAbove min =>
    unfold exec
    split
    · exact hR.refl s
    · split
      · exact hR.refl s
      · exact hR.step s
  | orElse a b iha ihb =>
    unfold exec Reply.orElse
    split
    · split
      · exact iha s
      · exact hR.trans (hR.rewind (iha s)) (ihb _)
    · exact iha s
  | nested g ih =>
    unfold exec
    split
    · exact hR.refl s
    · exact hR.nested _ _ (ih _)
  | observe level name reading g ih => exact hR.noted _ (ih s)

end Grammar

theorem Rule.run_kept {input : Array Lexeme} {R : State → State → Prop} (hR : Kept input R)
    {limits : Limits} (n : Nat) (r : Rule) (s : State) :
    R s (Rule.run input limits n r s).state := by
  induction n generalizing r s with
  | zero => exact hR.refl s
  | succ n ih => exact Grammar.exec_kept hR ih r.production s

/-! The cursor -/

theorem kept_cursor (input : Array Lexeme) : Kept input fun s t => s.cursor ≤ t.cursor where
  refl _ := Nat.le_refl _
  trans := Nat.le_trans
  step s := by
    simp only [Grammar.step]
    split <;> simp
  expecting _ _ := Nat.le_refl _
  rewind _ := Nat.le_refl _
  nested _ _ h := h
  noted _ h := h

/-! The failure record -/

/-- The record `g` has all that `f` has, unless it has gone on to a later index. -/
def Failure.Within (f g : Failure) : Prop :=
  f.furthest < g.furthest ∨ f.furthest = g.furthest ∧ ∀ e ∈ f.expected, e ∈ g.expected

theorem Failure.Within.refl (f : Failure) : f.Within f :=
  .inr ⟨rfl, fun _ h => h⟩

theorem Failure.Within.trans {f g h : Failure} (hfg : f.Within g) (hgh : g.Within h) :
    f.Within h := by
  rcases hfg with hfg | ⟨hfg, he⟩
  · rcases hgh with hgh | ⟨hgh, -⟩
    · exact .inl (Nat.lt_trans hfg hgh)
    · exact .inl (hgh ▸ hfg)
  · rcases hgh with hgh | ⟨hgh, he'⟩
    · exact .inl (hfg ▸ hgh)
    · exact .inr ⟨hfg.trans hgh, fun e h => he' e (he e h)⟩

theorem Failure.within_record (f : Failure) (i : Nat) (e : Expectation) :
    f.Within (f.record i e) := by
  unfold Failure.record
  split
  · exact .inl ‹_›
  · split
    · exact .inr ⟨‹_›, fun e' h => List.mem_insert_of_mem h⟩
    · exact .refl f

theorem kept_failure (input : Array Lexeme) : Kept input fun s t => s.failure.Within t.failure where
  refl s := .refl _
  trans := .trans
  step s := by
    simp only [Grammar.step]
    split <;> exact .refl _
  expecting s es := by
    unfold State.expecting
    generalize s.failure = f
    induction es generalizing f with
    | nil => exact .refl f
    | cons e es ih => exact (f.within_record s.cursor e).trans (ih _)
  rewind h := h
  nested _ _ h := h
  noted _ h := h

/-! The bounds of the input -/

/-- A state that stands in the input and whose failure record does. -/
def State.Inside (input : Array Lexeme) (s : State) : Prop :=
  s.cursor < input.size ∧ s.failure.furthest < input.size

theorem Failure.furthest_record {f : Failure} {i n : Nat} {e : Expectation}
    (hf : f.furthest < n) (hi : i < n) : (f.record i e).furthest < n := by
  unfold Failure.record
  split
  · exact hi
  · split
    · exact hi
    · exact hf

/-- The end of the input is never passed. -/
theorem kept_inside {input : Array Lexeme}
    (hend : (Grammar.tokenAt input (input.size - 1)).kind = .eof) :
    Kept input fun s t => s.Inside input → t.Inside input where
  refl _ h := h
  trans h h' hs := h' (h hs)
  step s := by
    rintro ⟨hc, hf⟩
    simp only [Grammar.step]
    split
    · exact ⟨hc, hf⟩
    · next hk =>
      refine ⟨?_, hf⟩
      have hne : s.cursor ≠ input.size - 1 := by
        intro he
        exact hk (he ▸ hend)
      change s.cursor + 1 < input.size
      omega
  expecting s es := by
    rintro ⟨hc, hf⟩
    refine ⟨hc, ?_⟩
    unfold State.expecting
    generalize s.failure = f at hf
    induction es generalizing f with
    | nil => exact hf
    | cons e es ih => exact ih _ (Failure.furthest_record hf hc)
  rewind h hs := ⟨hs.1, (h hs).2⟩
  nested _ _ h hs := h hs
  noted _ h hs := h hs

end Syntree
