import Syntree.Proofs.Exec

/-!
A run reads from the tokens alone: two runs of one grammar from one place read the same, whatever
was recorded before, however deep they stand and however many rules they may open.
-/

namespace Syntree

variable {α β : Type}

/-- Two runs that read the same, unless one of them was cut short. -/
inductive Agree : Reply α → Reply α → Prop where
  | ok {v : α} {t t' : State} (same : t.cursor = t'.cursor) : Agree ⟨.ok v, t⟩ ⟨.ok v, t'⟩
  | mismatch {t t' : State} (same : t.cursor = t'.cursor) : Agree ⟨.mismatch, t⟩ ⟨.mismatch, t'⟩
  | fatalLeft {e : Fatal} {t : State} {r : Reply α} : Agree ⟨.fatal e, t⟩ r
  | fatalRight {e : Fatal} {t : State} {r : Reply α} : Agree r ⟨.fatal e, t⟩
  | exhaustedLeft {t : State} {r : Reply α} : Agree ⟨.exhausted, t⟩ r
  | exhaustedRight {t : State} {r : Reply α} : Agree r ⟨.exhausted, t⟩

/-- Only the cursors of the states matter. -/
theorem Agree.restate {r r' : Reply α} {t t' : State} (h : Agree r r')
    (ht : t.cursor = r.state.cursor) (ht' : t'.cursor = r'.state.cursor) :
    Agree ⟨r.outcome, t⟩ ⟨r'.outcome, t'⟩ := by
  cases h with
  | ok same => exact .ok (by rw [ht, ht', same])
  | mismatch same => exact .mismatch (by rw [ht, ht', same])
  | fatalLeft => exact .fatalLeft
  | fatalRight => exact .fatalRight
  | exhaustedLeft => exact .exhaustedLeft
  | exhaustedRight => exact .exhaustedRight

theorem Agree.andThen {r r' : Reply β} {f f' : β → State → Reply α} (h : Agree r r')
    (hf : ∀ v t t', t.cursor = t'.cursor → Agree (f v t) (f' v t')) :
    Agree (r.andThen f) (r'.andThen f') := by
  cases h with
  | ok same => exact hf _ _ _ same
  | mismatch same => exact .mismatch same
  | fatalLeft => exact .fatalLeft
  | fatalRight => exact .fatalRight
  | exhaustedLeft => exact .exhaustedLeft
  | exhaustedRight => exact .exhaustedRight

theorem Agree.orElse {limits : Limits} {i : Nat} {r r' : Reply α} {f f' : State → Reply α}
    (h : Agree r r') (hf : ∀ t t', t.cursor = t'.cursor → Agree (f t) (f' t')) :
    Agree (r.orElse limits i f) (r'.orElse limits i f') := by
  cases h with
  | ok same => exact .ok same
  | @mismatch t t' same =>
    simp only [Reply.orElse, same]
    split
    · exact .mismatch same
    · exact hf _ _ rfl
  | fatalLeft => exact .fatalLeft
  | fatalRight => exact .fatalRight
  | exhaustedLeft => exact .exhaustedLeft
  | exhaustedRight => exact .exhaustedRight

namespace Grammar

variable {input : Array Lexeme} {limits : Limits}
  {rules rules' : (r : Rule) → State → Reply r.Result}

theorem step_same {s s' : State} (hs : s.cursor = s'.cursor) :
    (step input s).state.cursor = (step input s').state.cursor := by
  simp only [step, hs]
  split
  · exact hs
  · rfl

theorem step_agree {s s' : State} (hs : s.cursor = s'.cursor) :
    Agree (step input s) (step input s') := by
  have hl : (step input s).outcome = (step input s').outcome := by simp only [step, hs]
  change Agree ⟨(step input s).outcome, (step input s).state⟩ ⟨_, _⟩
  rw [hl]
  exact .ok (step_same hs)

theorem iterate_agree {f f' : β → State → Reply (Option β)}
    (hf : ∀ v t t', t.cursor = t'.cursor → Agree (f v t) (f' v t')) (n : Nat) (v : β)
    {s s' : State} (hs : s.cursor = s'.cursor) : Agree (iterate f n v s) (iterate f' n v s') := by
  induction n generalizing v s s' with
  | zero => exact .exhaustedLeft
  | succ n ih =>
    unfold iterate
    apply (hf v s s' hs).andThen
    intro o t t' ht
    cases o with
    | none => exact .ok ht
    | some u => exact ih u ht

theorem exec_agree
    (hr : ∀ r s s', s.cursor = s'.cursor → Agree (rules r s) (rules' r s')) (g : Grammar α)
    {s s' : State} (hs : s.cursor = s'.cursor) :
    Agree (exec input limits rules g s) (exec input limits rules' g s') := by
  induction g generalizing s s' with
  | done v => exact .ok hs
  | fail => exact .mismatch hs
  | reject e => exact .fatalLeft
  | advance => exact step_agree hs
  | call r => exact hr r s s' hs
  | here =>
    unfold exec
    rw [hs]
    exact .ok hs
  | peek =>
    unfold exec
    rw [hs]
    exact .ok hs
  | expect es =>
    unfold exec
    rw [hs]
    split
    · exact step_agree hs
    · exact .mismatch hs
  | operatorAbove min =>
    unfold exec
    rw [hs]
    split
    · exact .ok hs
    · split
      · exact .ok hs
      · exact .ok (step_same hs)
  | bind g f ihg ihf => exact (ihg hs).andThen fun v t t' ht => ihf v ht
  | orElse a b iha ihb =>
    unfold exec
    rw [hs]
    exact (iha hs).orElse fun t t' ht => ihb ht
  | loop v f ih =>
    unfold exec
    rw [hs]
    exact iterate_agree (fun v t t' ht => ih v ht) _ v hs
  | nested g ih =>
    unfold exec
    split
    · exact .fatalLeft
    · split
      · exact .fatalRight
      · have hd : ({ s with depth := s.depth + 1 } : State).cursor =
            ({ s' with depth := s'.depth + 1 } : State).cursor := hs
        exact (ih hd).restate rfl rfl
  | observe level name reading g ih => exact (ih hs).restate rfl rfl

end Grammar

theorem Rule.run_agree {input : Array Lexeme} {limits : Limits} (n n' : Nat) (r : Rule)
    {s s' : State} (hs : s.cursor = s'.cursor) :
    Agree (Rule.run input limits n r s) (Rule.run input limits n' r s') := by
  induction n generalizing n' r s s' with
  | zero => exact .exhaustedLeft
  | succ n ih =>
    cases n' with
    | zero => exact .exhaustedRight
    | succ n' => exact Grammar.exec_agree (fun q t t' ht => ih n' q ht) r.production hs

end Syntree
