import Syntree.Proofs.Expected
import Syntree.Proofs.Locality
import Syntree.Proofs.Settled
import Syntree.Proofs.Unplaced

/-!
Two sources on consecutive lines are read one after the other. Neither changes the pieces that the
other is cut into, since behind a division sign there is an operand and so no `/*` is left open; nor
its tree, since a declaration asks for nothing behind it but a semicolon.
-/

namespace Syntree

open Grammar (tokenAt)

/-! Division signs -/

/-- Between two indices a division sign is followed by what an operand can start with. -/
def Divided (input : Array Lexeme) (i j : Nat) : Prop :=
  ∀ k, i ≤ k → k < j → (tokenAt input k).spells "/" = true →
    (tokenAt input (k + 1)).startsExpr = true

namespace Divided

variable {input : Array Lexeme} {i j k : Nat}

theorem nil : Divided input i i := by
  intro k hi hk
  omega

theorem single (h : (tokenAt input i).spells "/" = true →
    (tokenAt input (i + 1)).startsExpr = true) : Divided input i (i + 1) := by
  intro k hi hk
  obtain rfl : k = i := by omega
  exact h

theorem append (h : Divided input i j) (h' : Divided input j k) : Divided input i k := by
  intro l hi hk
  rcases Nat.lt_or_ge l j with hj | hj
  · exact h l hi hj
  · exact h' l hj hk

end Divided

/-- Whether a phrase does not ask for a division sign itself. -/
def Phrase.undivided : Phrase → Bool
  | literal text | flag text => text != "/"
  | token kind => kind != .operator
  | optional p | star p | body p => p.undivided
  | after text p | separated text p => text != "/" && p.undivided
  | between opening closing p | listed opening closing p =>
    opening != "/" && closing != "/" && p.undivided
  | _ => true

theorem Derives.divided {limits : Limits} {input : Array Lexeme} {p : Phrase} {v : p.Result}
    {i j : Nat} {w : List Slot} (hi : LawfulInput input) (h : Derives limits input p i w j v)
    (hp : p.undivided = true) : Divided input i j := by
  have hkind (k : Nat) (h : (tokenAt input k).spells "/" = true) :
      (tokenAt input k).kind = .operator := (hi.lawful k).kind_eq h
  induction h with
  | @literal i text spelt =>
    refine .single fun hs => ?_
    rw [Lexeme.spells_unique spelt hs] at hp
    cases hp
  | @token i kind solid found =>
    refine .single fun hs => ?_
    rw [← found, hkind i hs] at hp
    cases hp
  | @separatorPresent i text found =>
    refine .single fun hs => ?_
    have hk := hkind i hs
    rw [found] at hk
    cases hk
  | modifiersCons found rest ih =>
    refine .append (.single fun hs => ?_) (ih rfl)
    have hk := hkind _ hs
    rw [found] at hk
    cases hk
  | operation left found above leaves right ihl ihr =>
    exact (ihl rfl).append (.append (.single fun _ => right.starts rfl) (ihr rfl))
  | prefixed known spelt operand ih =>
    refine .append (.single fun hs => ?_) (ih rfl)
    have hsign : ∀ op ∈ unaryOperators, op.spelling ≠ "/" := by decide
    exact absurd (Lexeme.spells_unique spelt hs) (hsign _ known)
  | flagAbsent | separatorAbsent | modifiersNil | optionalNone | starNil | bodyEmpty => exact .nil
  | flagPresent _ ih | optionalSome _ ih => exact ih hp
  | after _ _ ihm ihp =>
    simp only [Phrase.undivided, Bool.and_eq_true] at hp
    exact (ihm hp.1).append (ihp hp.2)
  | separated _ _ ihf ihr =>
    simp only [Phrase.undivided, Bool.and_eq_true] at hp
    exact (ihf hp.2).append (ihr (by simpa [Phrase.undivided] using hp))
  | starCons _ _ ihf ihr => exact (ihf hp).append (ihr hp)
  | body _ _ ihi ihl => exact (ihi (by simpa [Phrase.undivided] using hp)).append (ihl rfl)
  | between _ _ _ iho ihp ihc =>
    simp only [Phrase.undivided, Bool.and_eq_true] at hp
    exact (iho hp.1.1).append ((ihp hp.2).append (ihc hp.1.2))
  | listed _ _ _ _ iho ihi ihl ihc =>
    simp only [Phrase.undivided, Bool.and_eq_true] at hp
    exact (iho hp.1.1).append ((ihi (by simpa [Phrase.undivided] using hp.2)).append
      ((ihl rfl).append (ihc hp.1.2)))
  | typeParameters _ _ _ _ _ ih₁ ih₂ ih₃ ih₄ | initialiserDecl _ _ _ _ ih₁ ih₂ ih₃ ih₄
  | ifStmt _ _ _ _ ih₁ ih₂ ih₃ ih₄ =>
    exact (ih₁ rfl).append ((ih₂ rfl).append ((ih₃ rfl).append (ih₄ rfl)))
  | forStmt _ _ _ _ _ ih₁ ih₂ ih₃ ih₄ ih₅ =>
    exact (ih₁ rfl).append ((ih₂ rfl).append ((ih₃ rfl).append ((ih₄ rfl).append (ih₅ rfl))))
  | funcDecl _ _ _ _ _ _ ih₁ ih₂ ih₃ ih₄ ih₅ ih₆ =>
    exact (ih₁ rfl).append ((ih₂ rfl).append ((ih₃ rfl).append ((ih₄ rfl).append
      ((ih₅ rfl).append (ih₆ rfl)))))
  | importDecl _ _ _ ih₁ ih₂ ih₃ | enumDecl _ _ _ ih₁ ih₂ ih₃ | classDecl _ _ _ ih₁ ih₂ ih₃
  | caseDecl _ _ _ ih₁ ih₂ ih₃ | parameters _ _ _ ih₁ ih₂ ih₃ | varBinding _ _ _ ih₁ ih₂ ih₃
  | switchStmt _ _ _ ih₁ ih₂ ih₃ | caseStmt _ _ _ ih₁ ih₂ ih₃ | enumCase _ _ _ ih₁ ih₂ ih₃ =>
    exact (ih₁ rfl).append ((ih₂ rfl).append (ih₃ rfl))
  | typeDecl _ _ ih₁ ih₂ | typeParam _ _ ih₁ ih₂ | rootDecl _ _ ih₁ ih₂ | rootClass _ _ ih₁ ih₂
  | rootImport _ _ ih₁ ih₂ | rootEnum _ _ ih₁ ih₂ | rootFunc _ _ ih₁ ih₂ | rootVar _ _ ih₁ ih₂
  | enumMember _ _ ih₁ ih₂ | classMember _ _ ih₁ ih₂ | varDecl _ _ ih₁ ih₂
  | returnStmt _ _ ih₁ ih₂ | reference _ _ ih₁ ih₂ | entry _ _ ih₁ ih₂ =>
    exact (ih₁ rfl).append (ih₂ rfl)
  | exprStmt _ _ ih | ast _ _ ih | number _ _ ih => exact ih rfl
  | _ =>
    rename_i ih
    exact ih rfl

namespace Lexical

variable {ps : List Piece}

/-- Two pieces next to each other that the grammar sees are tokens next to each other. -/
theorem adjacent_lexemes {p q : Piece} (h : [p, q] <:+: ps) (hp : p.kind.isLayout = false)
    (hq : q.kind.isLayout = false) : [p.toLexeme, q.toLexeme] <:+: lexemes ps := by
  obtain ⟨xs, ys, rfl⟩ := h
  exact ⟨lexemes xs, lexemes ys, by simp [lexemes, hp, hq]⟩

theorem getElem?_of_infix {α : Type} {a b : α} {xs : List α} (h : [a, b] <:+: xs) :
    ∃ k, xs[k]? = some a ∧ xs[k + 1]? = some b := by
  obtain ⟨us, vs, rfl⟩ := h
  exact ⟨us.length, by simp, by simp⟩

/-- What starts as operators do is an operator, or a comment. -/
theorem classify_operator {c : Char} {rest : List Char} {kind : TokenKind} {extra : Nat}
    (hc : c ∈ operatorStarts) (h : classify (c :: rest) = some (kind, extra)) :
    kind = .operator ∨ comment (c :: rest) = extra + 1 := by
  rw [classify_sign (kindAt_operator hc)] at h
  cases hm : comment (c :: rest) with
  | zero =>
    cases ho : operator (c :: rest) with
    | zero => simp [hm, ho, matched] at h
    | succ n =>
      simp only [hm, ho, matched, Option.none_or, Option.some.injEq, Prod.mk.injEq] at h
      exact .inl h.1.symm
  | succ n =>
    simp only [hm, matched, Option.some_or, Option.some.injEq, Prod.mk.injEq] at h
    exact .inr (by rw [h.2])

theorem comment_ne_one (cs : List Char) : comment cs ≠ 1 := by
  unfold comment
  split
  · omega
  · next cs => cases closeComment cs <;> simp
  · simp

theorem Cut.operator {p : Piece} {c : Char} {t : List Char} (h : Cut p) (ht : p.text = c :: t)
    (hc : c ∈ operatorStarts) (hm : ∀ rest, comment (c :: rest) ≠ t.length + 1) :
    p.toLexeme = ⟨.operator, String.ofList (c :: t)⟩ := by
  obtain ⟨d, rest, extra, hclass, htext⟩ := h.classified
  obtain ⟨rfl, rfl⟩ := List.cons.inj (ht.symm.trans htext)
  have hclosed : ∀ r, c :: rest = '"' :: r → (closingQuote r).isSome = true := by
    intro r hr
    rw [(List.cons.inj hr).1] at hc
    exact absurd hc (by decide)
  have hlen : (rest.take extra).length = extra := by
    obtain ⟨text, u, hsplit, hlength, -⟩ := matches_of_classify hclass hclosed
    have htotal := congrArg List.length hsplit
    rw [List.length_cons, List.length_append] at htotal
    rw [List.length_take_of_le (by omega)]
  have hkind : p.kind = .operator := by
    rcases classify_operator hc hclass with hk | hk
    · exact hk
    · exact absurd (by rw [hlen, hk]) (hm rest)
  have hvalue : p.value = String.ofList (c :: rest.take extra) := by
    have hv := h.valued
    simpa [valueOf, hkind, ht, eq_comm] using hv
  rw [← hkind, ← hvalue]

/-- Where every division sign has an operand behind it, nothing looks like an open comment. -/
theorem not_looksOpen {ps : List Piece} (hcut : ∀ p ∈ ps, Cut p)
    (hd : ∀ l l', [l, l'] <:+: lexemes ps → l.spells "/" = true → l'.startsExpr = true)
    {p q : Piece} (h : [p, q] <:+: ps) :
    ¬ LooksOpen p q := by
  rintro ⟨hp, hq⟩
  obtain ⟨t, hq⟩ := List.head?_eq_some_iff.mp hq
  have hslash : p.toLexeme = ⟨.operator, "/"⟩ :=
    (hcut p (h.subset (by simp))).operator hp (by decide) fun rest => comment_ne_one _
  have hstar : q.toLexeme = ⟨.operator, String.ofList ('*' :: t)⟩ :=
    (hcut q (h.subset (by simp))).operator hq (by decide) fun rest => by simp [comment]
  have hstart := hd p.toLexeme q.toLexeme
    (adjacent_lexemes h (by rw [hslash]; rfl) (by rw [hstar]; rfl)) (by rw [hslash]; decide)
  have hsigns : ∀ text ∈ ["!", "-", "[", "\x7b", "("], text.toList.head? ≠ some '*' := by decide
  have hne (text : String) (ht : text ∈ ["!", "-", "[", "\x7b", "("]) :
      q.toLexeme.spells text = false := by
    have hv : String.ofList ('*' :: t) ≠ text := by
      rintro rfl
      exact hsigns _ ht (by simp)
    rw [hstar]
    simpa only [Lexeme.spells, Bool.and_eq_false_imp, beq_eq_false_iff_ne] using fun _ => hv
  simp [Lexeme.startsExpr, Lexeme.startsTerminal, hne, congrArg Lexeme.kind hstar] at hstart

end Lexical

/-! Declarations one after another -/

section

open Grammar

variable {input input' : Array Lexeme} {limits : Limits} {s t : State} {n n' i : Nat}

/-- Behind declarations that make up the tokens up to the index `i`, other tokens can follow, unless
they go on with the last of them. -/
theorem repeats_append {ds : List (RootDecl Nat)} (hl : limits.lookahead = some 1)
    (hi : LawfulInput input) (hag : ∀ k < i, tokenAt input' k = tokenAt input k)
    (hop : (tokenAt input' i).kind ≠ .operator) (hsemi : (tokenAt input' i).spells ";" = false)
    (hfin : ∀ s, (Rule.run input' limits n' .rootDecl s).outcome ≠ .exhausted)
    (hdepth : ∀ s d t, Rule.run input limits n .rootDecl s = ⟨.ok d, t⟩ → t.depth = s.depth)
    (h : Repeats input limits (Rule.run input limits n) (call .rootDecl) s ds t)
    (ht : t.cursor = i) (hs : s.Settled) :
    ∃ u, u.cursor = i ∧ u.depth = s.depth ∧ ∀ ds' v,
      Repeats input' limits (Rule.run input' limits n') (call .rootDecl) u ds' v →
      Repeats input' limits (Rule.run input' limits n') (call .rootDecl) s (ds ++ ds') v := by
  induction h with
  | @stop s _ failed within => exact ⟨s, ht, rfl, fun _ _ h => h⟩
  | @next s t s' d ds read rest ih =>
    have hread : Rule.run input limits n .rootDecl s = ⟨.ok d, t⟩ := read
    have hst : s.cursor ≤ t.cursor := exec_ok_cursor (Rule.run_cursor n) read
    have hti : t.cursor ≤ i := ht ▸ rest.cursor_le
    have hsettled : t.Settled := Rule.rootDecl_settles hl hi hs.furthest_le hread
    have hsi : s.cursor ≤ i := Nat.le_trans hst hti
    have hpar : Parallel i _ _ (Rule.run input limits n .rootDecl s)
        (Rule.run input' limits n' .rootDecl s) :=
      Rule.run_parallel hag n n' (by simp) hsi (Nat.le_trans hs.furthest_le hsi)
        (hs.not_asked hsi hsemi)
    rw [hread] at hpar
    have hread' : Rule.run input' limits n' .rootDecl s = ⟨.ok d, t⟩ := by
      cases hpar with
      | beyond h =>
        have hf := hsettled.furthest_le
        rcases h with h | h
        · exact absurd hti (Nat.not_le.mpr h)
        · exact absurd (Nat.le_trans hf hti) (Nat.not_le.mpr h)
      | same h => exact h
      | parted _ _ why =>
        rcases why with h | h
        · exact absurd h hop
        · exact absurd h (hsettled.not_asked hti hsemi)
      | exhausted h => exact absurd h (hfin s)
    obtain ⟨u, hu, hud, happend⟩ := ih ht hsettled
    exact ⟨u, hu, hud.trans (hdepth s d t hread),
      fun ds' v h => .next hread' (happend ds' v h)⟩

end

namespace TokenStream

variable {ts ts₁ ts₂ : TokenStream}

/-- How many rules may be open when the declarations of a source are read. -/
def openDeclarations (ts : TokenStream) : Nat := 16 * ts.lexemes.size + 15

/-- The run that reads the declarations of a source. -/
def declare (ts : TokenStream) (s : State) : Reply (List (RootDecl Nat)) :=
  Grammar.exec ts.lexemes .standard (Rule.run ts.lexemes .standard ts.openDeclarations)
    (.many (.call .rootDecl)) s

theorem reply_ok_iff {b : Ast Nat} {s : State} : ts.reply = ⟨.ok b, s⟩ ↔
    b.pos = 0 ∧ ts.declare .start = ⟨.ok b.declarations, s⟩ ∧
      (tokenAt ts.lexemes s.cursor).kind = .eof := by
  have hn : openRules ts.lexemes = ts.openDeclarations + 1 := by
    unfold openRules openDeclarations
    omega
  rw [reply_eq, hn]
  change (ts.declare .start).andThen (fun ds u => Grammar.exec ts.lexemes .standard _
    (Grammar.closing 0 ds) u) = _ ↔ _
  cases ts.declare .start with
  | mk o u =>
    cases o with
    | mismatch | fatal | exhausted => simp [Reply.andThen]
    | ok ds =>
      simp only [Reply.andThen, Grammar.exec_closing]
      split
      · next hk =>
        constructor
        · intro h
          cases h
          exact ⟨rfl, rfl, hk⟩
        · rintro ⟨hpos, h, -⟩
          cases h
          rw [← hpos]
      · next hk =>
        constructor
        · intro h
          cases h
        · rintro ⟨-, h, hk'⟩
          cases h
          exact absurd hk' hk

theorem declare_ne_exhausted (ts : TokenStream) (s : State) :
    (ts.declare s).outcome ≠ .exhausted := by
  have hr (r : Rule) (s : State) (h : Grammar.room ts.lexemes s + r.rank < ts.openDeclarations) :
      (Rule.run ts.lexemes .standard ts.openDeclarations r s).outcome ≠ .exhausted :=
    Rule.run_finishes _ r s h
  have hg : (Grammar.many (.call .rootDecl)).Guarded 15 :=
    Grammar.guarded_many.mpr ⟨Grammar.guarded_call.mpr (by decide), fun _ =>
      Grammar.moves_call.mpr (by simp)⟩
  refine Grammar.exec_finishes (Rule.run_cursor _) (fun _ _ _ _ hq hv => Rule.run_moves hq hv) hr
    hg ?_
  unfold Grammar.room openDeclarations
  omega

theorem rootDecl_ne_exhausted (ts : TokenStream) (s : State) :
    (Rule.run ts.lexemes .standard ts.openDeclarations .rootDecl s).outcome ≠ .exhausted := by
  refine Rule.run_finishes _ .rootDecl s ?_
  unfold Grammar.room openDeclarations
  simp only [Rule.rank]
  omega

/-- A rule that was read to its end has closed all levels that it has opened. -/
theorem depth_of_ok {limits : Limits} {n : Nat} {r : Rule} {v : r.Result} {s t : State}
    (h : Rule.run ts.lexemes limits n r s = ⟨.ok v, t⟩) : t.depth = s.depth := by
  obtain ⟨failed, hrun⟩ := @Rule.run_ran ts limits n r s [] (by rw [h]; simp)
  rw [h] at hrun
  exact hrun.onward.depth_eq

/-- What a source starts with behind another: nothing that could go on with a declaration. -/
theorem first_of_declare {ds : List (RootDecl Nat)} {s : State} (hi : LawfulInput ts.lexemes)
    (h : ts.declare .start = ⟨.ok ds, s⟩) (hs : (tokenAt ts.lexemes s.cursor).kind = .eof) :
    (tokenAt ts.lexemes 0).kind ≠ .operator ∧ (tokenAt ts.lexemes 0).spells ";" = false := by
  have hlawful := hi.lawful 0
  generalize hl : tokenAt ts.lexemes 0 = l at hlawful ⊢
  have hkinds : l.kind ∈ [TokenKind.eof, .modifier, .keyword, .ident] := by
    cases Grammar.many_ok h with
    | stop =>
      have hk : (tokenAt ts.lexemes 0).kind = .eof := hs
      simp [← hl, hk]
    | next read _ =>
      have hstarts : Rule.rootDecl.starts (tokenAt ts.lexemes 0) = true := Rule.run_starts read
      rw [hl] at hstarts
      simp only [Rule.starts, Bool.or_eq_true, beq_iff_eq] at hstarts
      rcases hstarts with ((((hk | hw) | hw) | hw) | hw) | hw
      · simp [hk]
      all_goals
        rw [hlawful.kind_eq hw]
        decide +kernel
  refine ⟨fun hk => by simp [hk] at hkinds, ?_⟩
  cases hsemi : l.spells ";" with
  | false => rfl
  | true =>
    have hk : l.kind = .punct := hlawful.kind_eq hsemi
    simp [hk] at hkinds

section

variable {L₁ L₂ : List Lexeme}

theorem tokenAt_left (h₁ : ts₁.lexemes.toList = L₁ ++ [.eof])
    (h : ts.lexemes.toList = L₁ ++ L₂ ++ [.eof]) {i : Nat} (hi : i < L₁.length) :
    tokenAt ts.lexemes i = tokenAt ts₁.lexemes i := by
  rw [tokenAt, tokenAt, ← Array.getElem?_toList, ← Array.getElem?_toList, h, h₁,
    List.append_assoc, List.getElem?_append_left hi, List.getElem?_append_left hi]

theorem tokenAt_right (h₂ : ts₂.lexemes.toList = L₂ ++ [.eof])
    (h : ts.lexemes.toList = L₁ ++ L₂ ++ [.eof]) (i : Nat) :
    tokenAt ts.lexemes (i + L₁.length) = tokenAt ts₂.lexemes i := by
  rw [tokenAt, tokenAt, ← Array.getElem?_toList, ← Array.getElem?_toList, h, h₂,
    List.append_assoc, List.getElem?_append_right (Nat.le_add_left ..), Nat.add_sub_cancel]

theorem kind_length (h₂ : ts₂.lexemes.toList = L₂ ++ [.eof]) :
    (tokenAt ts₂.lexemes L₂.length).kind = .eof := by
  rw [tokenAt, ← Array.getElem?_toList, h₂, List.getElem?_concat_length]
  rfl

theorem size_append (h₂ : ts₂.lexemes.toList = L₂ ++ [.eof])
    (h : ts.lexemes.toList = L₁ ++ L₂ ++ [.eof]) :
    ts.lexemes.size = ts₂.lexemes.size + L₁.length := by
  rw [← Array.length_toList, ← Array.length_toList, h, h₂]
  simp only [List.length_append, List.length_singleton]
  omega

/-- The tokens of one source found again behind those of another. -/
def behind (h₂ : ts₂.lexemes.toList = L₂ ++ [.eof])
    (h : ts.lexemes.toList = L₁ ++ L₂ ++ [.eof]) : Relocation ts₂.lexemes ts.lexemes where
  shift := L₁.length
  last := L₂.length
  place i := i + L₁.length
  place_eq _ _ := rfl
  token_eq i _ := tokenAt_right h₂ h i
  ends := kind_length h₂
  size_eq := size_append h₂ h

end

/-- The declarations of one source with those of another behind them. -/
theorem declare_append {L₁ L₂ : List Lexeme} {ds₁ ds₂ : List (RootDecl Nat)} {s₁ s₂ : State}
    (hi₁ : LawfulInput ts₁.lexemes) (hi₂ : LawfulInput ts₂.lexemes)
    (hL₁ : ts₁.lexemes.toList = L₁ ++ [.eof]) (hL₂ : ts₂.lexemes.toList = L₂ ++ [.eof])
    (hL : ts.lexemes.toList = L₁ ++ L₂ ++ [.eof])
    (h₁ : ts₁.declare .start = ⟨.ok ds₁, s₁⟩) (hs₁ : s₁.cursor = L₁.length)
    (h₂ : ts₂.declare .start = ⟨.ok ds₂, s₂⟩)
    (hs₂ : (tokenAt ts₂.lexemes s₂.cursor).kind = .eof) :
    ∃ s, ts.declare .start = ⟨.ok (ds₁ ++ ds₂.map (RootDecl.map (· + L₁.length))), s⟩ ∧
      (tokenAt ts.lexemes s.cursor).kind = .eof := by
  have hag (k : Nat) (hk : k < L₁.length) : tokenAt ts.lexemes k = tokenAt ts₁.lexemes k :=
    tokenAt_left hL₁ hL hk
  have hnext : tokenAt ts.lexemes L₁.length = tokenAt ts₂.lexemes 0 := by
    have hm := tokenAt_right hL₂ hL 0
    rwa [Nat.zero_add] at hm
  obtain ⟨hop, hsemi⟩ := first_of_declare hi₂ h₂ hs₂
  rw [← hnext] at hop hsemi
  obtain ⟨u, hu, hud, happend⟩ := repeats_append rfl hi₁ hag hop hsemi ts.rootDecl_ne_exhausted
    (fun _ _ _ => depth_of_ok) (Grammar.many_ok h₁) hs₁ State.settled_start
  have hbeside : (behind hL₂ hL).Beside .start u :=
    ⟨hu.trans (Nat.zero_add _).symm, hud, Nat.zero_le _⟩
  have halike : (behind hL₂ hL).Alike _ (ts₂.declare .start) (ts.declare u) :=
    Relocation.Relates.many (fun _ _ hs => (behind hL₂ hL).run_alike _ _ .rootDecl hs) _ _ hbeside
  rw [h₂] at halike
  obtain ⟨t, ht, hbeside⟩ := halike.of_ok (ts.declare_ne_exhausted u)
  have hall := happend _ t (Grammar.many_ok ht)
  refine ⟨t, Grammar.many_of_repeats hall (ts.declare_ne_exhausted _), ?_⟩
  rw [hbeside.token, hs₂]

end TokenStream

/-! Text on later lines -/

/-- A place further on by some bytes and some lines. -/
def Place.raise (bytes lines : Nat) (p : Place) : Place :=
  ⟨p.offset + bytes, p.line + lines, p.column⟩

/-- A position further on by some bytes and some lines. -/
def Position.raise (bytes lines : Nat) (p : Position) : Position :=
  { p with offset := p.offset + bytes.toUInt32, line := p.line + lines.toUInt32 }

def Token.raise (bytes lines : Nat) (t : Token) : Token :=
  { t with span := ⟨t.span.start.raise bytes lines, t.span.stop.raise bytes lines⟩ }

section

variable {b l : Nat} {p : Place} {file : String}

theorem Place.next_raise (c : Char) : (p.raise b l).next c = (p.next c).raise b l := by
  unfold next raise
  split <;> simp [Nat.add_right_comm]

theorem Place.after_raise (text : List Char) :
    (p.raise b l).after text = (p.after text).raise b l := by
  induction text generalizing p with
  | nil => rfl
  | cons c text ih =>
    change ((p.raise b l).next c).after text = ((p.next c).after text).raise b l
    rw [next_raise, ih]

/-- A line is started anew behind a newline. -/
theorem Place.behind_newline (text : List Char) :
    behind (text ++ ['\n']) = start.raise (bytes text + 1) (1 + text.count '\n') := by
  have hb : bytes ['\n'] = 1 := by decide
  simp [behind, start, raise, bytes_append, hb, sinceNewline, Nat.add_comm]

theorem Position.ofPlace_raise :
    ofPlace file (p.raise b l) = (ofPlace file p).raise b l := by
  simp [ofPlace, raise, Place.raise, Nat.toUInt32, UInt32.ofNat_add]

namespace Lexical

variable {ps qs : List Piece}

theorem placed_raise : placed file (p.raise b l) ps = (placed file p ps).map (·.raise b l) := by
  induction ps generalizing p with
  | nil => rfl
  | cons q ps ih =>
    simp only [placed, Place.after_raise, ih, Position.ofPlace_raise, List.map_cons, Token.raise]

theorem visible_raise : visible file (p.raise b l) ps = (visible file p ps).map (·.raise b l) := by
  rw [visible, placed_raise, List.filter_map]
  rfl

/-- The tokens of some pieces with the end of the input. -/
def stream (file : String) (p : Place) (ps : List Piece) : TokenStream :=
  .ofTokens (visible file p ps ++ [eofAt (.ofPlace file (endOf p ps))])

theorem stream_lexemes : (stream file p ps).lexemes.toList = lexemes ps ++ [.eof] := by
  rw [stream, TokenStream.lexemes, TokenStream.ofTokens_eof]
  simp [visible_lexemes, eofAt]

end Lexical

end

section

variable {file source : String} {ps : List Piece} {a : Ast Position}

theorem parse_of_pieces (h : Lexical.pieces source.toList = (ps, none)) :
    parse file source = (Lexical.stream file .start ps).tree := by
  unfold parse Lexical.stream
  rw [tokenize_of_pieces h]
  rfl

/-- A source with a tree, as its pieces and the run that reads them. -/
theorem exists_reply_of_parse (h : parse file source = .ok a) :
    ∃ ps b s, Lexical.pieces source.toList = (ps, none) ∧
      LawfulInput (Lexical.stream file .start ps).lexemes ∧
      (Lexical.stream file .start ps).reply = ⟨.ok b, s⟩ ∧
      a = b.map (Lexical.stream file .start ps).position := by
  obtain ⟨tokens, ht, -⟩ := parse_ok h
  obtain ⟨ps, -, hp, -⟩ := tokenize_eq ht
  rw [parse_of_pieces hp] at h
  obtain ⟨b, s, hs, rfl⟩ := TokenStream.tree_ok h
  exact ⟨ps, b, s, hp, tokenize_lawful (tokenize_of_pieces hp), hs, rfl⟩

theorem Derives.declaration_pos_lt {input : Array Lexeme} {b : Ast Nat} {i j : Nat}
    {w : List Slot} (h : Derives .standard input (.rule .ast) i w j b) {d : RootDecl Nat}
    (hd : d ∈ b.declarations) {n : Node Nat} (hn : n ∈ (Node.rootDecl d).subtree) : n.pos < j := by
  cases h with
  | ast declarations _ =>
    exact (declarations.laid.within _ (List.mem_flatMap.mpr ⟨d, hd, List.mem_singleton_self _⟩) n
      hn).2

namespace Lexical

variable {b : Ast Nat} {s : State} {p : Place}

theorem stream_derives (hi : LawfulInput (stream file p ps).lexemes)
    (h : (stream file p ps).reply = ⟨.ok b, s⟩) : s.cursor = (lexemes ps).length ∧
      ∃ w, Derives .standard (stream file p ps).lexemes (.rule .ast) 0 w (lexemes ps).length b := by
  rw [TokenStream.reply_eq] at h
  obtain ⟨w, hw⟩ := Rule.run_sound hi _ .ast .start b s h
  obtain ⟨-, hsize⟩ := Derives.ast_word hi hw
  have hcursor : s.cursor = (lexemes ps).length := by
    rw [← Array.length_toList, stream_lexemes, List.length_append] at hsize
    exact Nat.succ.inj hsize
  exact ⟨hcursor, w, hcursor ▸ hw⟩

/-- The pieces of a source with a tree leave no comment open. -/
theorem not_looksOpen_of_reply (hi : LawfulInput (stream file p ps).lexemes)
    (h : (stream file p ps).reply = ⟨.ok b, s⟩) (hcut : ∀ q ∈ ps, Cut q) :
    ∀ q q', [q, q'] <:+: ps → ¬ LooksOpen q q' := by
  obtain ⟨-, w, hw⟩ := stream_derives hi h
  have hat {k : Nat} {l : Lexeme} (hk : (lexemes ps)[k]? = some l) :
      tokenAt (stream file p ps).lexemes k = l := by
    have hlt : k < (lexemes ps).length := (List.getElem?_eq_some_iff.mp hk).1
    rw [tokenAt, ← Array.getElem?_toList, stream_lexemes, List.getElem?_append_left hlt, hk]
    rfl
  intro q q'
  refine not_looksOpen hcut fun l l' hl hs => ?_
  obtain ⟨k, hk, hk'⟩ := getElem?_of_infix hl
  have hlt : k < (lexemes ps).length := (List.getElem?_eq_some_iff.mp hk).1
  have hd := hw.divided hi rfl k (Nat.zero_le _) hlt (by rw [hat hk, hs])
  rwa [hat hk'] at hd

theorem length_visible : (visible file p ps).length = (lexemes ps).length := by
  rw [← visible_lexemes, List.length_map]

theorem position_stream {i : Nat} {t : Token} (h : (visible file p ps)[i]? = some t) :
    (stream file p ps).position i = t.span.start := by
  refine TokenStream.position_of_getElem? ?_
  have hlt : i < (visible file p ps).length := (List.getElem?_eq_some_iff.mp h).1
  rw [stream, TokenStream.ofTokens_eof, List.getElem?_toArray, List.getElem?_append_left hlt, h]

/-- The pieces of two texts on consecutive lines. -/
def onLines (ps qs : List Piece) : List Piece :=
  ps ++ ⟨⟨.newline, "\n"⟩, ['\n']⟩ :: qs

variable {qs : List Piece} {i : Nat}

theorem lexemes_onLines : lexemes (onLines ps qs) = lexemes ps ++ lexemes qs := by
  simp [lexemes, onLines, TokenKind.isLayout]

theorem visible_onLines : visible file .start (onLines ps qs) = visible file .start ps ++
    (visible file .start qs).map (·.raise (bytes (ps.flatMap (·.text)) + 1)
      (1 + (ps.flatMap (·.text)).count '\n')) := by
  have hend : endOf .start ps = .behind (ps.flatMap (·.text)) := endOf_behind [] ps
  rw [← visible_raise, ← Place.behind_newline, ← Place.behind_after, ← hend]
  simp [visible, onLines, placed_append, placed, TokenKind.isLayout]

/-- A token stands before the end of the source. -/
theorem position_marks (hcut : ∀ q ∈ ps, Cut q) (hsize : bytes (ps.flatMap (·.text)) < 2 ^ 32)
    (hi : i < (lexemes ps).length) : ∃ before, bytes before < bytes (ps.flatMap (·.text)) ∧
      ((stream file .start ps).position i).Marks file before := by
  rw [← @length_visible file ps .start] at hi
  have ht := List.getElem?_eq_getElem hi
  obtain ⟨before, text, rest, heq, hcovers⟩ := @placed_covers file [] ps hcut hsize _
    (List.mem_of_mem_filter (List.mem_of_getElem? ht))
  have hlonger := UInt32.lt_iff_toNat_lt.mp hcovers.longer
  rw [hcovers.start.offset, hcovers.stop.offset] at hlonger
  rw [position_stream ht]
  refine ⟨before, ?_, hcovers.start⟩
  rw [List.nil_append] at heq
  rw [heq, bytes_append]
  omega

theorem position_onLines_left (hi : i < (lexemes ps).length) :
    (stream file .start (onLines ps qs)).position i = (stream file .start ps).position i := by
  rw [← @length_visible file ps .start] at hi
  have ht := List.getElem?_eq_getElem hi
  rw [position_stream ht]
  refine position_stream ?_
  rw [visible_onLines, List.getElem?_append_left hi, ht]

theorem position_onLines_right (hi : i < (lexemes qs).length) :
    (stream file .start (onLines ps qs)).position (i + (lexemes ps).length) =
      ((stream file .start qs).position i).raise (bytes (ps.flatMap (·.text)) + 1)
        (1 + (ps.flatMap (·.text)).count '\n') := by
  rw [← @length_visible file qs .start] at hi
  rw [← @length_visible file ps .start]
  have ht := List.getElem?_eq_getElem hi
  rw [position_stream ht]
  exact position_stream (t := Token.raise _ _ _) (by
    rw [visible_onLines, List.getElem?_append_right (Nat.le_add_left ..), Nat.add_sub_cancel,
      List.getElem?_map, ht]
    rfl)

end Lexical

/-- Within bounds nothing is lost when a position is raised. -/
theorem Position.Marks.raise {p : Position} {before : List Char} {b l : Nat}
    (hp : p.Marks file before) (hsize : bytes before + 1 + b < 2 ^ 32) (hl : l ≤ b) :
    (p.raise b l).offset.toNat = p.offset.toNat + b ∧
      (p.raise b l).line.toNat = p.line.toNat + l := by
  have hline := hp.line_exact (by omega)
  have hcount := Place.count_newline_le before
  have hoffset := hp.offset
  simp only [Position.raise, UInt32.toNat_add, Nat.toUInt32, UInt32.toNat_ofNat']
  omega

/-- The run that reads two sources on consecutive lines. -/
theorem Lexical.reply_onLines {ps qs : List Piece} {b b' : Ast Nat} {s s' : State}
    (hi : LawfulInput (stream file .start ps).lexemes)
    (h : (stream file .start ps).reply = ⟨.ok b, s⟩)
    (hi' : LawfulInput (stream file .start qs).lexemes)
    (h' : (stream file .start qs).reply = ⟨.ok b', s'⟩) :
    ∃ t, (stream file .start (onLines ps qs)).reply =
      ⟨.ok ⟨0, b.declarations ++
        b'.declarations.map (RootDecl.map (· + (lexemes ps).length))⟩, t⟩ := by
  obtain ⟨-, hd, -⟩ := TokenStream.reply_ok_iff.mp h
  obtain ⟨-, hd', heof'⟩ := TokenStream.reply_ok_iff.mp h'
  obtain ⟨hcursor, -⟩ := stream_derives hi h
  have hlexemes : (stream file .start (onLines ps qs)).lexemes.toList =
      lexemes ps ++ lexemes qs ++ [.eof] := by
    rw [stream_lexemes, lexemes_onLines]
  obtain ⟨t, ht, heof⟩ := TokenStream.declare_append hi hi' stream_lexemes stream_lexemes hlexemes
    hd hcursor hd' heof'
  exact ⟨t, TokenStream.reply_ok_iff.mpr ⟨rfl, ht, heof⟩⟩

/-- No piece of a source with a tree goes on into the next line. -/
theorem Lexical.pieces_onLines {cs cs' : List Char} {ps qs : List Piece} {b : Ast Nat} {s : State}
    (hp : pieces cs = (ps, none)) (hi : LawfulInput (stream file .start ps).lexemes)
    (h : (stream file .start ps).reply = ⟨.ok b, s⟩) (hp' : pieces cs' = (qs, none)) :
    pieces (cs ++ '\n' :: cs') = (onLines ps qs, none) := by
  have hcut : ∀ q ∈ ps, Cut q := fun q hq => cut_of_mem_pieces (by rwa [hp])
  have hn := pieces_newline hp (not_looksOpen_of_reply hi h hcut) cs'
  rwa [hp'] at hn

/-- The positions of a source that is short enough are raised without loss. -/
theorem Lexical.raise_exact {ps : List Piece} {b : Ast Nat} {w : List Slot} {bytes' lines : Nat}
    (hcut : ∀ q ∈ ps, Cut q) (hsize : bytes' + bytes (ps.flatMap (·.text)) < 2 ^ 32)
    (hlines : lines ≤ bytes')
    (h : Derives .standard (stream file .start ps).lexemes (.rule .ast) 0 w (lexemes ps).length b) :
    ∀ d ∈ (b.map (stream file .start ps).position).declarations,
      ∀ n ∈ (Node.rootDecl d).subtree,
        (n.pos.raise bytes' lines).offset.toNat = n.pos.offset.toNat + bytes' ∧
        (n.pos.raise bytes' lines).line.toNat = n.pos.line.toNat + lines := by
  simp only [Ast.map, List.forall_mem_map]
  intro d hd
  change ∀ n ∈ ((Node.rootDecl d).map _).subtree, _
  rw [Node.subtree_map, List.forall_mem_map]
  intro n hn
  obtain ⟨before, hbefore, hmarks⟩ :=
    @position_marks file ps n.pos hcut (by omega) (h.declaration_pos_lt hd hn)
  rw [Node.pos_map]
  exact hmarks.raise (by omega) hlines

/-- Two sources that are read are read on consecutive lines, to the declarations of the first and
those of the second further on. -/
theorem parse_append {s₁ s₂ : String} {a₁ a₂ : Ast Position} (h₁ : parse file s₁ = .ok a₁)
    (h₂ : parse file s₂ = .ok a₂) (hsize : (s₁ ++ "\n" ++ s₂).utf8ByteSize < 2 ^ 32) :
    let raise := Position.raise (s₁.utf8ByteSize + 1) (1 + s₁.toList.count '\n')
    (∃ a, parse file (s₁ ++ "\n" ++ s₂) = .ok a ∧
      a.declarations = a₁.declarations ++ a₂.declarations.map (RootDecl.map raise)) ∧
    ∀ d ∈ a₂.declarations, ∀ n ∈ (Node.rootDecl d).subtree,
      (raise n.pos).file = n.pos.file ∧
      (raise n.pos).offset.toNat = n.pos.offset.toNat + (s₁.utf8ByteSize + 1) ∧
      (raise n.pos).line.toNat = n.pos.line.toNat + (1 + s₁.toList.count '\n') ∧
      (raise n.pos).column = n.pos.column := by
  intro raise
  obtain ⟨ps₁, b₁, t₁, hp₁, hi₁, hr₁, rfl⟩ := exists_reply_of_parse h₁
  obtain ⟨ps₂, b₂, t₂, hp₂, hi₂, hr₂, rfl⟩ := exists_reply_of_parse h₂
  obtain ⟨-, w₁, hw₁⟩ := Lexical.stream_derives hi₁ hr₁
  obtain ⟨-, w₂, hw₂⟩ := Lexical.stream_derives hi₂ hr₂
  constructor
  · have hp : Lexical.pieces (s₁ ++ "\n" ++ s₂).toList = (Lexical.onLines ps₁ ps₂, none) := by
      simpa using Lexical.pieces_onLines hp₁ hi₁ hr₁ hp₂
    have hraise : raise = Position.raise (bytes (ps₁.flatMap (·.text)) + 1)
        (1 + (ps₁.flatMap (·.text)).count '\n') := by
      rw [Lexical.text_of_pieces hp₁, bytes_toList]
    obtain ⟨t, hr⟩ := Lexical.reply_onLines hi₁ hr₁ hi₂ hr₂
    refine ⟨_, by rw [parse_of_pieces hp, TokenStream.tree_eq, hr]; rfl, ?_⟩
    simp only [Ast.map, List.map_append, List.map_map]
    congr 1
    · refine List.map_congr_left fun d hd => RootDecl.map_congr fun n hn => ?_
      exact Lexical.position_onLines_left (hw₁.declaration_pos_lt hd hn)
    · refine List.map_congr_left fun d hd => ?_
      rw [Function.comp_apply, Function.comp_apply, RootDecl.map_map, RootDecl.map_map, hraise]
      refine RootDecl.map_congr fun n hn => ?_
      exact Lexical.position_onLines_right (hw₂.declaration_pos_lt hd hn)
  · have hcut : ∀ q ∈ ps₂, Lexical.Cut q := fun q hq => Lexical.cut_of_mem_pieces (by rwa [hp₂])
    have htotal : s₁.utf8ByteSize + 1 + bytes (ps₂.flatMap (·.text)) < 2 ^ 32 := by
      have hnewline : "\n".utf8ByteSize = 1 := by decide
      rw [Lexical.text_of_pieces hp₂, bytes_toList]
      rwa [String.utf8ByteSize_append, String.utf8ByteSize_append, hnewline] at hsize
    have hlines : 1 + s₁.toList.count '\n' ≤ s₁.utf8ByteSize + 1 := by
      have hcount := Place.count_newline_le s₁.toList
      rw [bytes_toList] at hcount
      omega
    intro d hd n hn
    obtain ⟨hoffset, hline⟩ := Lexical.raise_exact hcut htotal hlines hw₂ d hd n hn
    exact ⟨rfl, hoffset, hline, rfl⟩

end

/-- A division at the end of a line, with a comment behind it that the next line does not go on. -/
theorem parse_append_comment :
    ∃ a₁ a₂ a, parse "f" "let x=a/b;//c" = .ok a₁ ∧ parse "f" "pub fn f()\x7b\x7d" = .ok a₂ ∧
      parse "f" "let x=a/b;//c\npub fn f()\x7b\x7d" = .ok a ∧
      a.declarations = a₁.declarations ++ a₂.declarations.map (RootDecl.map (Position.raise 14 1)) ∧
      a.declarations.map (fun d => (d.pos.offset.toNat, d.pos.line.toNat, d.pos.column.toNat)) =
        [(0, 1, 1), (14, 2, 1)] := by
  have hfirst : (parse "f" "let x=a/b;//c").isOk = true := by decide +kernel
  have hsecond : (parse "f" "pub fn f()\x7b\x7d").isOk = true := by decide +kernel
  obtain ⟨a₁, h₁⟩ := Except.exists_of_isOk hfirst
  obtain ⟨a₂, h₂⟩ := Except.exists_of_isOk hsecond
  obtain ⟨⟨a, ha, hd⟩, -⟩ := parse_append h₁ h₂ (by decide +kernel)
  have hplaces : (parse "f" "let x=a/b;//c\npub fn f()\x7b\x7d").toOption.map (fun a =>
      a.declarations.map fun d => (d.pos.offset.toNat, d.pos.line.toNat, d.pos.column.toNat)) =
      some [(0, 1, 1), (14, 2, 1)] := by decide +kernel
  have hsource : "let x=a/b;//c" ++ "\n" ++ "pub fn f()\x7b\x7d" =
      "let x=a/b;//c\npub fn f()\x7b\x7d" := by decide +kernel
  rw [hsource] at ha
  rw [ha] at hplaces
  exact ⟨a₁, a₂, a, h₁, h₂, ha, hd, Option.some.inj hplaces⟩

end Syntree
