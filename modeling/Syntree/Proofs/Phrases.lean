import Syntree.Proofs.Agreement
import Syntree.Proofs.Derivation
import Syntree.Proofs.First
import Syntree.Proofs.Lexemes
import Syntree.Proofs.Progress

/-!
How each phrase is read, and what reading a phrase has found.
-/

namespace Syntree

open Grammar (exec tokenAt here call attempt many choice iterate)

/-- How a phrase is read. -/
def Phrase.grammar : (p : Phrase) → Grammar p.Result
  | literal text => Grammar.literal text
  | token kind => Grammar.token kind
  | flag text | separator text => Grammar.optional text
  | rule r => call r
  | optional p => attempt p.grammar
  | after text p => do
    Grammar.literal text
    p.grammar
  | between opening closing p => do
    Grammar.literal opening
    let v ← p.grammar
    Grammar.literal closing
    return v
  | star p => many p.grammar
  | separated text p => Grammar.separated text p.grammar
  | listed opening closing p => Grammar.listed opening closing p.grammar
  | body p => do
    let items ← Grammar.optionalSeparated ";" p.grammar
    Grammar.trailing ";" items
  | typeParameters => do
    Grammar.literal "<"
    let items ← Grammar.separated "," (call .typeParam)
    let _ ← Grammar.optional ","
    Grammar.literal ">"
    return items
  | modifiers => Grammar.modifiers
  | rootKind => choice Grammar.rootAlternatives
  | classKind => choice Grammar.classAlternatives
  | enumKind => choice Grammar.enumAlternatives
  | caseHead => choice [
    do
      Grammar.literal "default"
      return none,
    do
      Grammar.literal "case"
      return some (← call .caseSelect)]

/-- One round of the loop over binary operators. -/
def Grammar.operation (min : Power) (left : Expr Nat) : Grammar (Option (Expr Nat)) := do
  match ← operatorAbove min with
  | none => return none
  | some (op, p) =>
    let right ← call (.binary p.rightOperand)
    return some (.binary left.pos left op right)

theorem Rule.production_binary (min : Power) :
    (Rule.binary min).production =
      Grammar.call .unary >>= fun first =>
        Grammar.loop (.unary first.pos first) (Grammar.operation min) := rfl

namespace Grammar

variable {α β : Type} {input : Array Lexeme} {limits : Limits}
  {rules : (r : Rule) → State → Reply r.Result} {s s' : State}

/-- What every round of a loop keeps holds at its end, where one more round has found nothing. -/
theorem iterate_ok {f : β → State → Reply (Option β)} {P : β → State → Prop}
    (hf : ∀ v t u t', P v t → f v t = ⟨.ok (some u), t'⟩ → P u t') (n : Nat) {v u : β}
    (hp : P v s) (h : iterate f n v s = ⟨.ok u, s'⟩) : ∃ t, P u t ∧ f u t = ⟨.ok none, s'⟩ := by
  induction n generalizing v s with
  | zero => cases h
  | succ n ih =>
    unfold iterate at h
    cases hr : f v s with
    | mk o t =>
      rw [hr] at h
      cases o with
      | mismatch | fatal | exhausted => cases h
      | ok o =>
        cases o with
        | none =>
          cases h
          exact ⟨s, hp, hr⟩
        | some u => exact ih (hf v s u t hp hr) h

theorem optional_ok {text : String} {b : Bool} :
    exec input limits rules (Grammar.optional text) s = ⟨.ok b, s'⟩ →
      (b = true ∧ (tokenAt input s.cursor).spells text = true ∧
        s' = { s with cursor := s.cursor + 1 }) ∨
      (b = false ∧ (tokenAt input s.cursor).spells text = false ∧ s'.cursor = s.cursor) := by
  intro h
  unfold Grammar.optional at h
  obtain ⟨o, t, ho, hp⟩ := bind_ok.mp h
  obtain ⟨rfl, rfl⟩ := pure_ok.mp hp
  rcases attempt_ok.mp ho with ⟨u, rfl, hu⟩ | ⟨rfl, t', ht, -, rfl⟩
  · exact .inl ⟨rfl, literal_ok.mp hu⟩
  · exact .inr ⟨rfl, (literal_mismatch.mp ht).1, rfl⟩

/-- The end of the input is found but not passed. -/
theorem eof_ok {v : String} (h : exec input limits rules (token .eof) s = ⟨.ok v, s'⟩) :
    (tokenAt input s.cursor).kind = .eof ∧ s'.cursor = s.cursor := by
  unfold token at h
  obtain ⟨l, t, hl, h⟩ := bind_ok.mp h
  obtain ⟨-, rfl⟩ := pure_ok.mp h
  obtain ⟨hm, hs⟩ := expect_ok.mp hl
  have hk : (tokenAt input s.cursor).kind = .eof := by simpa [Expectation.met] using hm
  simp only [step, hk, if_true, Reply.mk.injEq] at hs
  exact ⟨hk, by rw [← hs.2]⟩

/-- Reading as many as there are fails only with a part that has read too much to be given up. -/
theorem many_mismatch {g : Grammar α} (hr : ∀ r s, s.cursor ≤ (rules r s).state.cursor)
    (h : exec input limits rules (many g) s = ⟨.mismatch, s'⟩) :
    limits.committed s.cursor s'.cursor = true := by
  have hl : ∀ n items s, iterate (fun items t => exec input limits rules (round g items) t) n items
      s = ⟨.mismatch, s'⟩ → limits.committed s.cursor s'.cursor = true := by
    intro n
    induction n with
    | zero =>
      intro items s h
      cases h
    | succ n ih =>
      intro items s h
      unfold iterate at h
      cases ha : exec input limits rules (round g items) s with
      | mk o t =>
        rw [ha] at h
        cases o with
        | fatal | exhausted => cases h
        | mismatch =>
          cases h
          exact (attempt_mismatch.mp (map_mismatch ha)).2
        | ok o =>
          cases o with
          | none => cases h
          | some u => exact committed_mono (exec_ok_cursor hr ha) (ih u t h)
  unfold many at h
  exact hl _ [] s (map_mismatch h)

/-- A list with separators fails at its first item, or it has read too much to be given up. -/
theorem separated_mismatch {g : Grammar α} {text : String}
    (hr : ∀ r s, s.cursor ≤ (rules r s).state.cursor)
    (h : exec input limits rules (Grammar.separated text g) s = ⟨.mismatch, s'⟩) :
    exec input limits rules g s = ⟨.mismatch, s'⟩ ∨
      limits.committed s.cursor s'.cursor = true := by
  unfold Grammar.separated at h
  rcases bind_mismatch.mp h with hm | ⟨u, t, hu, h⟩
  · exact .inl hm
  · exact .inr (committed_mono (exec_ok_cursor hr hu) (many_mismatch hr (map_mismatch h)))

/-- What may be left out fails only if it has read too much to be given up. -/
theorem optionalSeparated_mismatch {g : Grammar α} {text : String}
    (h : exec input limits rules (Grammar.optionalSeparated text g) s = ⟨.mismatch, s'⟩) :
    limits.committed s.cursor s'.cursor = true := by
  unfold Grammar.optionalSeparated at h
  exact (attempt_mismatch.mp (map_mismatch h)).2

theorem optional_mismatch {text : String}
    (h : exec input limits rules (Grammar.optional text) s = ⟨.mismatch, s'⟩) :
    limits.committed s.cursor s'.cursor = true := by
  unfold Grammar.optional at h
  exact (attempt_mismatch.mp (map_mismatch h)).2

theorem trailing_mismatch {text : String} {items : List α}
    (h : exec input limits rules (Grammar.trailing text items) s = ⟨.mismatch, s'⟩) :
    limits.committed s.cursor s'.cursor = true := by
  unfold Grammar.trailing at h
  split at h
  · cases h
  · exact optional_mismatch (map_mismatch h)

/-- What a choice has read was read by one of its alternatives. -/
theorem choice_ok {gs : List (Grammar α)} {v : α}
    (h : exec input limits rules (choice gs) s = ⟨.ok v, s'⟩) :
    ∃ g ∈ gs, ∃ t, t.cursor = s.cursor ∧ exec input limits rules g t = ⟨.ok v, s'⟩ := by
  induction gs generalizing s with
  | nil => exact absurd h choice_nil_ok
  | cons a gs ih =>
    rcases choice_cons_ok.mp h with h | ⟨t, -, -, h⟩
    · exact ⟨a, by simp, s, rfl, h⟩
    · obtain ⟨g, hg, u, hu, h⟩ := ih h
      exact ⟨g, by simp [hg], u, hu, h⟩

/-- A choice that can be given up has failed with each of its alternatives. -/
theorem choice_mismatch {gs : List (Grammar α)} {g : Grammar α} (hg : g ∈ gs)
    (h : exec input limits rules (choice gs) s = ⟨.mismatch, s'⟩)
    (hc : limits.committed s.cursor s'.cursor = false) :
    ∃ t t', t.cursor = s.cursor ∧ exec input limits rules g t = ⟨.mismatch, t'⟩ ∧
      limits.committed s.cursor t'.cursor = false := by
  induction gs generalizing s with
  | nil => cases hg
  | cons a gs ih =>
    rcases orElse_mismatch.mp h with ⟨-, hc'⟩ | ⟨t, ht, hct, h⟩
    · rw [hc] at hc'
      cases hc'
    · rcases List.mem_cons.mp hg with rfl | hg
      · exact ⟨s, t, rfl, ht, hct⟩
      · exact ih (s := { t with cursor := s.cursor }) hg h hc

end Grammar

end Syntree
