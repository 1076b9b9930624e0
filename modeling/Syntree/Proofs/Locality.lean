import Syntree.Proofs.Recognition

/-!
A text is cut without regard to what stands on later lines. A piece ends at the end of a line at the
latest, unless it is a string or a comment that is closed, so that only a `/*` that nothing closes
could be taken for the start of a comment once more text follows.
-/

namespace Syntree

namespace Lexical

open Text

variable {c : Char} {cs rest text u : List Char} {kind : TokenKind}

theorem endsWord_newline (cs t : List Char) : endsWord (cs ++ '\n' :: t) = endsWord cs := by
  cases cs with
  | nil =>
    have hw : isWordChar '\n' = false := by decide
    simp [endsWord, hw]
  | cons c cs => rfl

theorem head?_newline {d : Char} (h : d ∈ (u ++ '\n' :: cs).head?) : d ∈ u.head? ∨ d = '\n' := by
  cases u with
  | nil => exact .inr (Option.some.inj h).symm
  | cons e u => exact .inl h

/-- A fraction ends at the end of a line, so that it is there without what follows. -/
theorem hasFraction_newline (h : hasFraction u = false) (t : List Char) :
    hasFraction (u ++ '\n' :: t) = false := by
  cases hlonger : hasFraction (u ++ '\n' :: t) with
  | false => rfl
  | true =>
    obtain ⟨ds, rest, hsplit, hne, hdigits, hends⟩ := hasFraction_split hlonger
    obtain ⟨v, rfl, hv⟩ : ∃ v, u = '.' :: (ds ++ v) ∧ endsWord v = true := by
      rw [← List.cons_append] at hsplit
      rcases List.append_eq_append_iff.mp hsplit with ⟨v, hu, hrest⟩ | ⟨v, hu, hrest⟩
      · cases v with
        | nil => exact ⟨[], by simpa using hu.symm, rfl⟩
        | cons d v =>
          obtain ⟨rfl, -⟩ := List.cons.inj hrest
          have hm : '\n' ∈ '.' :: ds := by simp [hu]
          rcases List.mem_cons.mp hm with hm | hm
          · cases hm
          · exact absurd (hdigits _ hm) (by decide)
      · rw [hrest, endsWord_newline] at hends
        exact ⟨v, hu, hends⟩
    rw [hasFraction_digits hne hdigits hv] at h
    cases h

/-- No comment is opened by later lines, unless there is a `/` that a `*` stands behind. -/
theorem comment_newline (h : comment (c :: u) = 0) (hopen : ¬ (c = '/' ∧ u.head? = some '*'))
    (t : List Char) : comment (c :: (u ++ '\n' :: t)) = 0 := by
  cases u with
  | nil =>
    apply comment.eq_3
    all_goals
      intro r hr
      cases hr
  | cons d u =>
    apply comment.eq_3
    · intro r hr
      rw [List.cons_append, List.cons.injEq, List.cons.injEq] at hr
      obtain ⟨rfl, rfl, -⟩ := hr
      simp [comment] at h
    · intro r hr
      rw [List.cons_append, List.cons.injEq, List.cons.injEq] at hr
      obtain ⟨rfl, rfl, -⟩ := hr
      exact hopen ⟨rfl, rfl⟩

/-- A token is the same before later lines, unless it looks like an open comment. -/
theorem Recognised.newline_behind (h : Recognised kind text u)
    (hopen : ¬ (text = ['/'] ∧ u.head? = some '*')) (t : List Char) :
    Recognised kind text (u ++ '\n' :: t) := by
  have hpair : ∀ q ∈ pairOperators, q.2 ≠ '\n' := by decide
  have hblank : isWhitespace '\n' = false := by decide
  apply h.exchange
  constructor
  case word => exact fun ends => by rwa [endsWord_newline]
  case fraction => exact fun alone => hasFraction_newline alone t
  case pair =>
    intro c alone d hd
    rcases head?_newline hd with hd | rfl
    · exact alone d hd
    · exact fun hm => hpair _ hm rfl
  case bare =>
    intro c hc bare
    exact comment_newline bare (fun hslash => hopen ⟨by rw [hc, hslash.1], hslash.2⟩) t
  case line =>
    intro _ stops d hd
    exact (head?_newline hd).elim (stops d) id
  case blank =>
    intro _ stops d hd
    rcases head?_newline hd with hd | rfl
    · exact stops d hd
    · exact hblank

/-- A `/` before a piece that starts with `*` looks like an open comment. -/
def LooksOpen (p q : Piece) : Prop :=
  p.text = ['/'] ∧ q.text.head? = some '*'

/-- The first piece of a text that is not empty starts with its first character. -/
theorem pieces_head {ps : List Piece} (h : pieces (c :: rest) = (ps, none)) :
    ∃ p others, ps = p :: others ∧ p.text.head? = some c := by
  unfold pieces at h
  split at h
  · cases h
  · next kind extra hc =>
    simp only at h
    split at h
    · cases h
    · exact ⟨_, _, (congrArg Prod.fst h).symm, rfl⟩

/-- Text on later lines leaves the pieces of a text as they are. -/
theorem pieces_newline {ps : List Piece} (h : pieces cs = (ps, none))
    (hps : ∀ p q, [p, q] <:+: ps → ¬ LooksOpen p q) (t : List Char) :
    pieces (cs ++ '\n' :: t) =
      (ps ++ ⟨⟨.newline, "\n"⟩, ['\n']⟩ :: (pieces t).1, (pieces t).2) := by
  induction ps generalizing cs with
  | nil =>
    obtain rfl : cs = [] := (text_of_pieces h).symm
    exact pieces_of_recognised .newline rfl
  | cons p ps ih =>
    obtain ⟨u, rfl, hrec, hvalue, hu⟩ := recognised_of_pieces h
    have hrest := ih hu fun q r hm => hps q r (hm.trans (List.suffix_cons _ _).isInfix)
    have hopen : ¬ (p.text = ['/'] ∧ u.head? = some '*') := by
      intro hp
      obtain ⟨v, rfl⟩ := List.head?_eq_some_iff.mp hp.2
      obtain ⟨q, others, rfl, hq⟩ := pieces_head hu
      exact hps p q ⟨[], others, rfl⟩ ⟨hp.1, hq⟩
    rw [List.append_assoc, pieces_of_recognised (hrec.newline_behind hopen t) hvalue, hrest]
    rfl

end Lexical

end Syntree
