import Syntree.Proofs.Lookahead

/-!
What a rule reads is a word of the language, and the value it returns records how that word is
derived.
-/

namespace Syntree

open Grammar

variable {α : Type} {input : Array Lexeme} {limits : Limits} {n : Nat} {s s' : State}

/-! Phrases -/

/-- What the rules read is derived, as far as `n` rules may be open. -/
def SoundUpTo (limits : Limits) (input : Array Lexeme) (n : Nat) : Prop :=
  ∀ r s v s', Rule.run input limits n r s = ⟨.ok v, s'⟩ →
    ∃ w, Derives limits input (.rule r) s.cursor w s'.cursor v

section Phrases

variable {p : Phrase}

/-- What a phrase reads is derived. -/
def Phrase.Sound (limits : Limits) (input : Array Lexeme) (n : Nat) (p : Phrase) : Prop :=
  ∀ s v s', exec input limits (Rule.run input limits n) p.grammar s = ⟨.ok v, s'⟩ →
    ∃ w, Derives limits input p s.cursor w s'.cursor v

/-- A phrase and what follows it. -/
theorem Phrase.Sound.bind (hp : p.Sound limits input n) {f : p.Result → Grammar α} {v : α}
    (h : exec input limits (Rule.run input limits n) (p.grammar >>= f) s = ⟨.ok v, s'⟩) :
    ∃ u t w, Derives limits input p s.cursor w t.cursor u ∧
      exec input limits (Rule.run input limits n) (f u) t = ⟨.ok v, s'⟩ := by
  obtain ⟨u, t, hu, hv⟩ := bind_ok.mp h
  obtain ⟨w, hw⟩ := hp _ _ _ hu
  exact ⟨u, t, w, hw, hv⟩

theorem sound_literal (text : String) : (Phrase.literal text).Sound limits input n := by
  intro s v s' h
  obtain ⟨hl, rfl⟩ := literal_ok.mp h
  exact ⟨_, .literal hl⟩

theorem sound_token {kind : TokenKind} (hk : kind ≠ .eof) :
    (Phrase.token kind).Sound limits input n := by
  intro s v s' h
  obtain ⟨hl, rfl, rfl⟩ := (token_ok hk).mp h
  exact ⟨_, .token hk hl⟩

theorem sound_name : (Phrase.token .ident).Sound limits input n :=
  sound_token (by simp)

theorem sound_numeral : (Phrase.token .number).Sound limits input n :=
  sound_token (by simp)

theorem sound_string : (Phrase.token .string).Sound limits input n :=
  sound_token (by simp)

theorem sound_flag (text : String) : (Phrase.flag text).Sound limits input n := by
  intro s v s' h
  rcases optional_ok h with ⟨rfl, hl, rfl⟩ | ⟨rfl, -, hs⟩
  · exact ⟨_, .flagPresent (.literal hl)⟩
  · rw [hs]
    exact ⟨_, .flagAbsent⟩

theorem sound_separator {text : String} (hi : LawfulInput input)
    (ht : Lexical.kindOf text = .punct) : (Phrase.separator text).Sound limits input n := by
  intro s v s' h
  rcases optional_ok h with ⟨rfl, hl, rfl⟩ | ⟨rfl, -, hs⟩
  · have hp : tokenAt input s.cursor = ⟨.punct, text⟩ := by
      rw [← ht]
      exact Lexeme.eq_of_spells (hi.lawful _) hl
    exact ⟨_, .separatorPresent hp⟩
  · rw [hs]
    exact ⟨_, .separatorAbsent⟩

theorem sound_optional (hp : p.Sound limits input n) :
    (Phrase.optional p).Sound limits input n := by
  intro s v s' h
  rcases attempt_ok.mp h with ⟨u, rfl, hu⟩ | ⟨rfl, t, -, -, rfl⟩
  · obtain ⟨w, hw⟩ := hp _ _ _ hu
    exact ⟨w, .optionalSome hw⟩
  · exact ⟨[], .optionalNone⟩

theorem sound_after (text : String) (hp : p.Sound limits input n) :
    (Phrase.after text p).Sound limits input n := by
  intro s v s' h
  obtain ⟨_, t, w₁, h₁, h⟩ := (sound_literal text).bind h
  obtain ⟨w₂, h₂⟩ := hp _ _ _ h
  exact ⟨_, .after h₁ h₂⟩

theorem sound_between (opening closing : String) (hp : p.Sound limits input n) :
    (Phrase.between opening closing p).Sound limits input n := by
  intro s v s' h
  obtain ⟨_, t₁, w₁, h₁, h⟩ := (sound_literal opening).bind h
  obtain ⟨u, t₂, w₂, h₂, h⟩ := hp.bind h
  obtain ⟨_, t₃, w₃, h₃, h⟩ := (sound_literal closing).bind h
  obtain ⟨rfl, rfl⟩ := pure_ok.mp h
  exact ⟨_, .between h₁ h₂ h₃⟩

theorem sound_star (hp : p.Sound limits input n) : (Phrase.star p).Sound limits input n := by
  intro s v s' h
  have hr := many_ok h
  clear h
  induction hr with
  | stop => exact ⟨[], .starNil⟩
  | next read rest ihr =>
    obtain ⟨w₁, h₁⟩ := hp _ _ _ read
    obtain ⟨w₂, h₂⟩ := ihr
    exact ⟨_, .starCons h₁ h₂⟩

theorem sound_separated (text : String) (hp : p.Sound limits input n) :
    (Phrase.separated text p).Sound limits input n := by
  intro s v s' h
  obtain ⟨u, t, w₁, h₁, h⟩ := hp.bind h
  obtain ⟨us, t', w₂, h₂, h⟩ := (sound_star (sound_after text hp)).bind h
  obtain ⟨rfl, rfl⟩ := pure_ok.mp h
  exact ⟨_, .separated h₁ h₂⟩

theorem sound_listed (opening closing : String) (hi : LawfulInput input)
    (hp : p.Sound limits input n) : (Phrase.listed opening closing p).Sound limits input n := by
  intro s v s' h
  obtain ⟨_, t₁, w₁, h₁, h⟩ := (sound_literal opening).bind h
  obtain ⟨items, t₂, hitems, h⟩ := bind_ok.mp h
  obtain ⟨o, t, w₂, h₂, hp'⟩ := (sound_optional (sound_separated "," hp)).bind hitems
  obtain ⟨rfl, rfl⟩ := pure_ok.mp hp'
  obtain ⟨b, t₃, w₃, h₃, h⟩ := (sound_separator hi (by decide)).bind h
  obtain ⟨_, t₄, w₄, h₄, h⟩ := (sound_literal closing).bind h
  obtain ⟨rfl, rfl⟩ := pure_ok.mp h
  exact ⟨_, .listed h₁ h₂ h₃ h₄⟩

/-- Items of a body and the separator behind them, which may be read at another level. -/
theorem sound_items {items vs : List p.Result} {t t' : State} (hi : LawfulInput input)
    (hp : p.Sound limits input n)
    (h : exec input limits (Rule.run input limits n) (optionalSeparated ";" p.grammar) s =
      ⟨.ok items, t⟩)
    (ht : exec input limits (Rule.run input limits n) (trailing ";" items) t' = ⟨.ok vs, s'⟩)
    (hc : t'.cursor = t.cursor) :
    ∃ w, Derives limits input (.body p) s.cursor w s'.cursor vs := by
  obtain ⟨o, t₁, ho, h⟩ := bind_ok.mp h
  obtain ⟨rfl, rfl⟩ := pure_ok.mp h
  rcases attempt_ok.mp ho with ⟨us, rfl, hus⟩ | ⟨rfl, u, -, -, rfl⟩
  · obtain ⟨w₁, h₁⟩ := sound_separated ";" hp s us t₁ hus
    rw [← hc] at h₁
    have hne : us.isEmpty = false := by
      obtain ⟨a, t₂, -, hus⟩ := bind_ok.mp hus
      obtain ⟨as, t₃, -, hus⟩ := bind_ok.mp hus
      obtain ⟨rfl, -⟩ := pure_ok.mp hus
      rfl
    simp only [trailing, Option.getD_some, hne, Bool.false_eq_true, if_false] at ht
    obtain ⟨b, t₂, w₂, h₂, ht⟩ := (sound_separator hi (by decide)).bind ht
    obtain ⟨rfl, rfl⟩ := pure_ok.mp ht
    exact ⟨_, .body h₁ h₂⟩
  · obtain ⟨rfl, rfl⟩ := pure_ok.mp ht
    rw [hc]
    exact ⟨[], .bodyEmpty⟩

theorem sound_body (hi : LawfulInput input) (hp : p.Sound limits input n) :
    (Phrase.body p).Sound limits input n := by
  intro s v s' h
  obtain ⟨items, t, hitems, ht⟩ := bind_ok.mp h
  exact sound_items hi hp hitems ht rfl

theorem Grammar.Repeats.modifiers {rules : (r : Rule) → State → Reply r.Result}
    {words : List String} (hi : LawfulInput input)
    (h : Repeats input limits rules (token .modifier) s words s') :
    ∃ w, Derives limits input .modifiers s.cursor w s'.cursor (Modifier.among words) := by
  induction h with
  | stop => exact ⟨[], .modifiersNil⟩
  | next read rest ih =>
    obtain ⟨hk, rfl, rfl⟩ := (token_ok (by simp)).mp read
    obtain ⟨m, hm, hl⟩ := (hi.lawful _).modifier hk
    obtain ⟨w, h⟩ := ih
    rw [Modifier.among, List.filterMap_cons_some hm]
    exact ⟨_, .modifiersCons hl h⟩

theorem sound_modifiers (hi : LawfulInput input) : Phrase.modifiers.Sound limits input n := by
  intro s v s' h
  obtain ⟨words, t, hw, h⟩ := bind_ok.mp h
  obtain ⟨rfl, rfl⟩ := pure_ok.mp h
  exact (many_ok hw).modifiers hi

theorem sound_rule (ih : SoundUpTo limits input n) (r : Rule) :
    (Phrase.rule r).Sound limits input n :=
  fun s v s' h => ih r s v s' h

/-- Only the last of some type parameters can have constraints. -/
theorem Grammar.Repeats.greedy {v : TypeParam Nat} {vs : List (TypeParam Nat)} {t : State}
    (hv : Rule.run input limits n .typeParam t = ⟨.ok v, s⟩)
    (h : Repeats input limits (Rule.run input limits n)
      (Phrase.after "," (.rule .typeParam)).grammar s vs s') :
    ∀ p ∈ (v :: vs).dropLast, p.constraints = [] := by
  induction h generalizing v t with
  | stop => simp
  | @next s t' s' v' vs read rest ih =>
    obtain ⟨_, u, hl, hv'⟩ := bind_ok.mp read
    obtain ⟨hcomma, rfl⟩ := literal_ok.mp hl
    intro p hp
    rcases List.mem_cons.mp hp with rfl | hp
    · apply Classical.byContradiction
      intro hc
      have hident := Rule.run_starts hv'
      simp only [Rule.starts, beq_iff_eq] at hident
      exact typeParam_greedy hv hc hcomma hident
    · exact ih hv' p hp

theorem sound_typeParameters (hi : LawfulInput input) (ih : SoundUpTo limits input n) :
    Phrase.typeParameters.Sound limits input n := by
  intro s v s' h
  obtain ⟨_, t₁, w₁, h₁, h⟩ := (sound_literal "<").bind h
  obtain ⟨ps, t₂, hps, h⟩ := bind_ok.mp h
  obtain ⟨w₂, h₂⟩ := sound_separated "," (sound_rule ih .typeParam) t₁ ps t₂ hps
  obtain ⟨b, t₃, w₃, h₃, h⟩ := (sound_separator hi (by decide)).bind h
  obtain ⟨_, t₄, w₄, h₄, h⟩ := (sound_literal ">").bind h
  obtain ⟨rfl, rfl⟩ := pure_ok.mp h
  have hgreedy : ∀ p ∈ ps.dropLast, p.constraints = [] := by
    obtain ⟨q, u, hq, hps⟩ := bind_ok.mp hps
    obtain ⟨qs, u', hqs, hps⟩ := bind_ok.mp hps
    obtain ⟨rfl, rfl⟩ := pure_ok.mp hps
    exact (many_ok hqs).greedy hq
  exact ⟨_, .typeParameters h₁ h₂ hgreedy h₃ h₄⟩

theorem sound_rootKind (hi : LawfulInput input) (ih : SoundUpTo limits input n) :
    Phrase.rootKind.Sound limits input n := by
  intro s v s' h
  obtain ⟨g, hg, t, ht, h⟩ := choice_ok h
  simp only [rootAlternatives, List.mem_cons, List.not_mem_nil, or_false] at hg
  rw [← ht]
  rcases hg with rfl | rfl | rfl | rfl | rfl
  all_goals obtain ⟨d, t₁, w₁, h₁, h⟩ := (sound_rule ih _).bind h
  · obtain ⟨b, t₂, w₂, h₂, h⟩ := (sound_separator hi (by decide)).bind h
    obtain ⟨rfl, rfl⟩ := pure_ok.mp h
    exact ⟨_, .rootClass h₁ h₂⟩
  · obtain ⟨b, t₂, w₂, h₂, h⟩ := (sound_separator hi (by decide)).bind h
    obtain ⟨rfl, rfl⟩ := pure_ok.mp h
    exact ⟨_, .rootImport h₁ h₂⟩
  · obtain ⟨b, t₂, w₂, h₂, h⟩ := (sound_separator hi (by decide)).bind h
    obtain ⟨rfl, rfl⟩ := pure_ok.mp h
    exact ⟨_, .rootEnum h₁ h₂⟩
  · obtain ⟨_, t₂, w₂, h₂, h⟩ := (sound_literal ";").bind h
    obtain ⟨rfl, rfl⟩ := pure_ok.mp h
    exact ⟨_, .rootVar h₁ h₂⟩
  · obtain ⟨b, t₂, w₂, h₂, h⟩ := (sound_separator hi (by decide)).bind h
    obtain ⟨rfl, rfl⟩ := pure_ok.mp h
    exact ⟨_, .rootFunc h₁ h₂⟩

theorem sound_classKind (ih : SoundUpTo limits input n) : Phrase.classKind.Sound limits input n := by
  intro s v s' h
  obtain ⟨g, hg, t, ht, h⟩ := choice_ok h
  simp only [classAlternatives, List.mem_cons, List.not_mem_nil, or_false] at hg
  rw [← ht]
  rcases hg with rfl | rfl | rfl | rfl | rfl
  all_goals
    obtain ⟨d, t₁, w, hw, h⟩ := (sound_rule ih _).bind h
    obtain ⟨rfl, rfl⟩ := pure_ok.mp h
  · exact ⟨w, .varKind hw⟩
  · exact ⟨w, .funcKind hw⟩
  · exact ⟨w, .innerClass hw⟩
  · exact ⟨w, .innerEnum hw⟩
  · exact ⟨w, .initialiserKind hw⟩

theorem sound_enumKind (ih : SoundUpTo limits input n) : Phrase.enumKind.Sound limits input n := by
  intro s v s' h
  obtain ⟨g, hg, t, ht, h⟩ := choice_ok h
  simp only [enumAlternatives, List.mem_cons, List.not_mem_nil, or_false] at hg
  rw [← ht]
  rcases hg with rfl | rfl | rfl | rfl | rfl | rfl
  all_goals
    obtain ⟨d, t₁, w, hw, h⟩ := (sound_rule ih _).bind h
    obtain ⟨rfl, rfl⟩ := pure_ok.mp h
  · exact ⟨w, .caseKind hw⟩
  · exact ⟨w, .memberKind (.varKind hw)⟩
  · exact ⟨w, .memberKind (.funcKind hw)⟩
  · exact ⟨w, .memberKind (.innerClass hw)⟩
  · exact ⟨w, .memberKind (.innerEnum hw)⟩
  · exact ⟨w, .memberKind (.initialiserKind hw)⟩

theorem sound_caseHead (ih : SoundUpTo limits input n) : Phrase.caseHead.Sound limits input n := by
  intro s v s' h
  obtain ⟨g, hg, t, ht, h⟩ := choice_ok h
  simp only [List.mem_cons, List.not_mem_nil, or_false] at hg
  rw [← ht]
  rcases hg with rfl | rfl
  · obtain ⟨_, t₁, w, hw, h⟩ := (sound_literal "default").bind h
    obtain ⟨rfl, rfl⟩ := pure_ok.mp h
    exact ⟨w, .defaultHead hw⟩
  · obtain ⟨_, t₁, w₁, h₁, h⟩ := (sound_literal "case").bind h
    obtain ⟨c, t₂, w₂, h₂, h⟩ := (sound_rule ih .caseSelect).bind h
    obtain ⟨rfl, rfl⟩ := pure_ok.mp h
    exact ⟨_, .selectHead (.after h₁ h₂)⟩

end Phrases

/-! Rules -/

/-- What the production of a rule reads is derived, given that what its parts read is. -/
def Rule.Sound (limits : Limits) (input : Array Lexeme) (n : Nat) (r : Rule) : Prop :=
  ∀ s v s', exec input limits (Rule.run input limits n) r.production s = ⟨.ok v, s'⟩ →
    ∃ w, Derives limits input (.rule r) s.cursor w s'.cursor v

section Rules

/-- A sign was one of the operators that may stand before their operand. -/
theorem unaryOperator_ok {rules : (r : Rule) → State → Reply r.Result} {l : Lexeme}
    (h : exec input limits rules (expect (unaryOperators.map fun op => .literal op.spelling)) s =
      ⟨.ok l, s'⟩) :
    ∃ op ∈ unaryOperators, (tokenAt input s.cursor).spells op.spelling = true ∧
      (if l.value = Op.not.spelling then Op.not else .sub) = op ∧
      s' = { s with cursor := s.cursor + 1 } := by
  obtain ⟨hm, hs⟩ := expect_ok.mp h
  simp only [unaryOperators, List.map_cons, List.map_nil, List.any_cons, List.any_nil,
    Bool.or_false, Bool.or_eq_true, Expectation.met] at hm
  have hk : (tokenAt input s.cursor).kind ≠ .eof := by
    rcases hm with hm | hm <;> exact Lexeme.kind_ne_eof_of_spells hm
  rw [step_state hk] at hs
  cases hs
  rcases hm with hm | hm
  · refine ⟨.not, by simp [unaryOperators], hm, ?_, rfl⟩
    simp only [Lexeme.spells, Bool.and_eq_true, beq_iff_eq] at hm
    rw [if_pos hm.2]
  · refine ⟨.sub, by simp [unaryOperators], hm, ?_, rfl⟩
    simp only [Lexeme.spells, Bool.and_eq_true, beq_iff_eq] at hm
    rw [if_neg (by rw [hm.2]; decide)]

theorem number_ok {v : Decimal.Binary64}
    (h : exec input limits (Rule.run input limits n) number s = ⟨.ok v, s'⟩) :
    ∃ x w, Derives limits input (.token .number) s.cursor w s'.cursor x ∧
      Decimal.Binary64.ofText? x.toList = some v := by
  unfold number at h
  rw [here_bind] at h
  obtain ⟨x, t, w, hw, h⟩ := sound_numeral.bind h
  split at h
  · next hv =>
    obtain ⟨rfl, rfl⟩ := pure_ok.mp h
    exact ⟨x, w, hw, hv⟩
  · cases h

theorem sound_typeDecl (hi : LawfulInput input) (ih : SoundUpTo limits input n) :
    Rule.typeDecl.Sound limits input n := by
  intro s v s' h
  unfold Rule.production Grammar.typeDecl at h
  rw [here_bind] at h
  obtain ⟨x, t₁, w₁, h₁, h⟩ := sound_name.bind h
  obtain ⟨ps, t₂, w₂, h₂, h⟩ := (sound_optional (sound_typeParameters hi ih)).bind h
  obtain ⟨rfl, rfl⟩ := pure_ok.mp h
  exact ⟨_, .typeDecl h₁ h₂⟩

theorem sound_typeParam (ih : SoundUpTo limits input n) : Rule.typeParam.Sound limits input n := by
  intro s v s' h
  unfold Rule.production Grammar.typeParam at h
  rw [here_bind] at h
  obtain ⟨x, t₁, w₁, h₁, h⟩ := sound_name.bind h
  obtain ⟨cs, t₂, w₂, h₂, h⟩ :=
    (sound_optional (sound_after ":" (sound_separated "," (sound_rule ih .reference)))).bind h
  obtain ⟨rfl, rfl⟩ := pure_ok.mp h
  exact ⟨_, .typeParam h₁ h₂⟩

theorem sound_ast (ih : SoundUpTo limits input n) : Rule.ast.Sound limits input n := by
  intro s v s' h
  unfold Rule.production Grammar.ast at h
  rw [here_bind] at h
  obtain ⟨ds, t₁, w₁, h₁, h⟩ := (sound_star (sound_rule ih .rootDecl)).bind h
  obtain ⟨x, t₂, hx, h⟩ := bind_ok.mp h
  obtain ⟨rfl, rfl⟩ := pure_ok.mp h
  obtain ⟨hk, ht⟩ := eof_ok hx
  rw [ht]
  exact ⟨_, .ast h₁ hk⟩

theorem sound_rootDecl (hi : LawfulInput input) (ih : SoundUpTo limits input n) :
    Rule.rootDecl.Sound limits input n := by
  intro s v s' h
  unfold Rule.production Grammar.rootDecl rootDeclAmong at h
  rw [here_bind] at h
  obtain ⟨ms, t₁, w₁, h₁, h⟩ := (sound_modifiers hi).bind h
  obtain ⟨d, t₂, w₂, h₂, h⟩ := (sound_rootKind hi ih).bind h
  obtain ⟨rfl, rfl⟩ := pure_ok.mp h
  exact ⟨_, .rootDecl h₁ h₂⟩

theorem sound_importDecl : Rule.importDecl.Sound limits input n := by
  intro s v s' h
  unfold Rule.production Grammar.importDecl at h
  rw [here_bind] at h
  obtain ⟨_, t₁, w₁, h₁, h⟩ := (sound_literal "import").bind h
  obtain ⟨x, t₂, w₂, h₂, h⟩ := (sound_optional sound_name).bind h
  obtain ⟨path, t₃, w₃, h₃, h⟩ := sound_string.bind h
  obtain ⟨rfl, rfl⟩ := pure_ok.mp h
  exact ⟨_, .importDecl h₁ h₂ h₃⟩

/-- Members in braces, between which the level of nesting changes. -/
theorem sound_members (hi : LawfulInput input) (ih : SoundUpTo limits input n) {r : Rule} :
    ∀ s v s', exec input limits (Rule.run input limits n) (members (call r)) s = ⟨.ok v, s'⟩ →
      ∃ w, Derives limits input (.between "\x7b" "\x7d" (.body (.rule r))) s.cursor w s'.cursor
        v := by
  intro s v s' h
  obtain ⟨_, t₁, w₁, h₁, h⟩ := (sound_literal "\x7b").bind h
  obtain ⟨items, t₂, hitems, h⟩ := bind_ok.mp h
  obtain ⟨vs, t₃, hvs, h⟩ := bind_ok.mp h
  obtain ⟨_, t₄, w₄, h₄, h⟩ := (sound_literal "\x7d").bind h
  obtain ⟨rfl, rfl⟩ := pure_ok.mp h
  obtain ⟨u, hu, rfl⟩ := nested_ok hitems
  obtain ⟨w₂, h₂⟩ := sound_items hi (sound_rule ih r) hu hvs rfl
  exact ⟨_, .between h₁ h₂ h₄⟩

theorem sound_enumDecl (hi : LawfulInput input) (ih : SoundUpTo limits input n) :
    Rule.enumDecl.Sound limits input n := by
  intro s v s' h
  unfold Rule.production Grammar.enumDecl at h
  rw [here_bind] at h
  obtain ⟨_, t₁, w₁, h₁, h⟩ := (sound_literal "enum").bind h
  obtain ⟨t, t₂, w₂, h₂, h⟩ := (sound_rule ih .typeDecl).bind h
  obtain ⟨ms, t₃, hms, h⟩ := bind_ok.mp h
  obtain ⟨rfl, rfl⟩ := pure_ok.mp h
  obtain ⟨w₃, h₃⟩ := sound_members hi ih t₂ ms t₃ hms
  exact ⟨_, .enumDecl h₁ h₂ h₃⟩

theorem sound_classDecl (hi : LawfulInput input) (ih : SoundUpTo limits input n) :
    Rule.classDecl.Sound limits input n := by
  intro s v s' h
  unfold Rule.production Grammar.classDecl at h
  rw [here_bind] at h
  obtain ⟨_, t₁, w₁, h₁, h⟩ := (sound_literal "class").bind h
  obtain ⟨t, t₂, w₂, h₂, h⟩ := (sound_rule ih .typeDecl).bind h
  obtain ⟨ms, t₃, hms, h⟩ := bind_ok.mp h
  obtain ⟨rfl, rfl⟩ := pure_ok.mp h
  obtain ⟨w₃, h₃⟩ := sound_members hi ih t₂ ms t₃ hms
  exact ⟨_, .classDecl h₁ h₂ h₃⟩

theorem sound_enumMember (hi : LawfulInput input) (ih : SoundUpTo limits input n) :
    Rule.enumMember.Sound limits input n := by
  intro s v s' h
  unfold Rule.production Grammar.enumMember enumMemberAmong at h
  rw [here_bind] at h
  obtain ⟨ms, t₁, w₁, h₁, h⟩ := (sound_modifiers hi).bind h
  obtain ⟨d, t₂, w₂, h₂, h⟩ := (sound_enumKind ih).bind h
  obtain ⟨rfl, rfl⟩ := pure_ok.mp h
  exact ⟨_, .enumMember h₁ h₂⟩

theorem sound_classMember (hi : LawfulInput input) (ih : SoundUpTo limits input n) :
    Rule.classMember.Sound limits input n := by
  intro s v s' h
  unfold Rule.production Grammar.classMember classMemberAmong at h
  rw [here_bind] at h
  obtain ⟨ms, t₁, w₁, h₁, h⟩ := (sound_modifiers hi).bind h
  obtain ⟨d, t₂, w₂, h₂, h⟩ := (sound_classKind ih).bind h
  obtain ⟨rfl, rfl⟩ := pure_ok.mp h
  exact ⟨_, .classMember h₁ h₂⟩

theorem sound_caseDecl (ih : SoundUpTo limits input n) : Rule.caseDecl.Sound limits input n := by
  intro s v s' h
  unfold Rule.production Grammar.caseDecl at h
  rw [here_bind] at h
  obtain ⟨_, t₁, w₁, h₁, h⟩ := (sound_literal "case").bind h
  obtain ⟨x, t₂, w₂, h₂, h⟩ := sound_name.bind h
  obtain ⟨t, t₃, w₃, h₃, h⟩ :=
    (sound_optional (sound_between "(" ")" (sound_rule ih .typeDecl))).bind h
  obtain ⟨rfl, rfl⟩ := pure_ok.mp h
  exact ⟨_, .caseDecl h₁ h₂ h₃⟩

theorem sound_initialiserDecl (hi : LawfulInput input) (ih : SoundUpTo limits input n) :
    Rule.initialiserDecl.Sound limits input n := by
  intro s v s' h
  unfold Rule.production Grammar.initialiserDecl at h
  rw [here_bind] at h
  obtain ⟨_, t₁, w₁, h₁, h⟩ := (sound_literal "init").bind h
  obtain ⟨ps, t₂, w₂, h₂, h⟩ := (sound_listed "(" ")" hi (sound_rule ih .parameters)).bind h
  obtain ⟨b, t₃, w₃, h₃, h⟩ := (sound_flag "throws").bind h
  obtain ⟨a, t₄, w₄, h₄, h⟩ := (sound_rule ih .block).bind h
  obtain ⟨rfl, rfl⟩ := pure_ok.mp h
  exact ⟨_, .initialiserDecl h₁ h₂ h₃ h₄⟩

theorem sound_parameters (ih : SoundUpTo limits input n) :
    Rule.parameters.Sound limits input n := by
  intro s v s' h
  unfold Rule.production Grammar.parameters at h
  rw [here_bind] at h
  obtain ⟨xs, t₁, w₁, h₁, h⟩ := (sound_separated "," sound_name).bind h
  obtain ⟨_, t₂, w₂, h₂, h⟩ := (sound_literal ":").bind h
  obtain ⟨t, t₃, w₃, h₃, h⟩ := (sound_rule ih .reference).bind h
  obtain ⟨rfl, rfl⟩ := pure_ok.mp h
  exact ⟨_, .parameters h₁ h₂ h₃⟩

theorem sound_varDecl (ih : SoundUpTo limits input n) : Rule.varDecl.Sound limits input n := by
  intro s v s' h
  unfold Rule.production Grammar.varDecl at h
  rw [here_bind] at h
  obtain ⟨_, t₁, w₁, h₁, h⟩ := (sound_literal "let").bind h
  obtain ⟨vs, t₂, w₂, h₂, h⟩ := (sound_separated "," (sound_rule ih .varBinding)).bind h
  obtain ⟨rfl, rfl⟩ := pure_ok.mp h
  exact ⟨_, .varDecl h₁ h₂⟩

theorem sound_varBinding (ih : SoundUpTo limits input n) :
    Rule.varBinding.Sound limits input n := by
  intro s v s' h
  unfold Rule.production Grammar.varBinding at h
  rw [here_bind] at h
  obtain ⟨x, t₁, w₁, h₁, h⟩ := sound_name.bind h
  obtain ⟨t, t₂, w₂, h₂, h⟩ := (sound_optional (sound_after ":" (sound_rule ih .reference))).bind h
  obtain ⟨e, t₃, w₃, h₃, h⟩ := (sound_optional (sound_after "=" (sound_rule ih .expr))).bind h
  obtain ⟨rfl, rfl⟩ := pure_ok.mp h
  exact ⟨_, .varBinding h₁ h₂ h₃⟩

theorem sound_funcDecl (hi : LawfulInput input) (ih : SoundUpTo limits input n) :
    Rule.funcDecl.Sound limits input n := by
  intro s v s' h
  unfold Rule.production Grammar.funcDecl at h
  rw [here_bind] at h
  obtain ⟨_, t₁, w₁, h₁, h⟩ := (sound_literal "fn").bind h
  obtain ⟨x, t₂, w₂, h₂, h⟩ := sound_name.bind h
  obtain ⟨ps, t₃, w₃, h₃, h⟩ := (sound_listed "(" ")" hi (sound_rule ih .parameters)).bind h
  obtain ⟨b, t₄, w₄, h₄, h⟩ := (sound_flag "throws").bind h
  obtain ⟨t, t₅, w₅, h₅, h⟩ := (sound_optional (sound_after ":" (sound_rule ih .reference))).bind h
  obtain ⟨a, t₆, w₆, h₆, h⟩ := (sound_rule ih .block).bind h
  obtain ⟨rfl, rfl⟩ := pure_ok.mp h
  exact ⟨_, .funcDecl h₁ h₂ h₃ h₄ h₅ h₆⟩

theorem sound_block (hi : LawfulInput input) (ih : SoundUpTo limits input n) :
    Rule.block.Sound limits input n := by
  intro s v s' h
  unfold Rule.production Grammar.block at h
  rw [here_bind] at h
  obtain ⟨_, t₁, w₁, h₁, h⟩ := (sound_literal "\x7b").bind h
  obtain ⟨ss, t₂, hss, h⟩ := bind_ok.mp h
  obtain ⟨u, hu, rfl⟩ := nested_ok hss
  obtain ⟨w₂, h₂⟩ := sound_body hi (sound_rule ih .stmt) _ ss u hu
  obtain ⟨_, t₃, w₃, h₃, h⟩ := (sound_literal "\x7d").bind h
  obtain ⟨rfl, rfl⟩ := pure_ok.mp h
  exact ⟨_, .block (.between h₁ h₂ h₃)⟩

theorem sound_returnStmt (ih : SoundUpTo limits input n) :
    Rule.returnStmt.Sound limits input n := by
  intro s v s' h
  unfold Rule.production Grammar.returnStmt at h
  rw [here_bind] at h
  obtain ⟨_, t₁, w₁, h₁, h⟩ := (sound_literal "return").bind h
  obtain ⟨e, t₂, w₂, h₂, h⟩ := (sound_optional (sound_rule ih .expr)).bind h
  obtain ⟨rfl, rfl⟩ := pure_ok.mp h
  exact ⟨_, .returnStmt h₁ h₂⟩

theorem sound_ifStmt (ih : SoundUpTo limits input n) : Rule.ifStmt.Sound limits input n := by
  intro s v s' h
  unfold Rule.production Grammar.ifStmt at h
  rw [here_bind] at h
  obtain ⟨_, t₁, w₁, h₁, h⟩ := (sound_literal "if").bind h
  obtain ⟨e, t₂, w₂, h₂, h⟩ := (sound_rule ih .expr).bind h
  obtain ⟨a, t₃, w₃, h₃, h⟩ := (sound_rule ih .block).bind h
  obtain ⟨b, t₄, w₄, h₄, h⟩ := (sound_optional (sound_after "else" (sound_rule ih .block))).bind h
  obtain ⟨rfl, rfl⟩ := pure_ok.mp h
  exact ⟨_, .ifStmt h₁ h₂ h₃ h₄⟩

theorem sound_forStmt (ih : SoundUpTo limits input n) : Rule.forStmt.Sound limits input n := by
  intro s v s' h
  unfold Rule.production Grammar.forStmt at h
  rw [here_bind] at h
  obtain ⟨_, t₁, w₁, h₁, h⟩ := (sound_literal "for").bind h
  obtain ⟨t, t₂, w₂, h₂, h⟩ := (sound_rule ih .reference).bind h
  obtain ⟨_, t₃, w₃, h₃, h⟩ := (sound_literal "in").bind h
  obtain ⟨e, t₄, w₄, h₄, h⟩ := (sound_rule ih .expr).bind h
  obtain ⟨a, t₅, w₅, h₅, h⟩ := (sound_rule ih .block).bind h
  obtain ⟨rfl, rfl⟩ := pure_ok.mp h
  exact ⟨_, .forStmt h₁ h₂ h₃ h₄ h₅⟩

theorem sound_switchStmt (ih : SoundUpTo limits input n) :
    Rule.switchStmt.Sound limits input n := by
  intro s v s' h
  unfold Rule.production Grammar.switchStmt at h
  rw [here_bind] at h
  obtain ⟨_, t₁, w₁, h₁, h⟩ := (sound_literal "switch").bind h
  obtain ⟨e, t₂, w₂, h₂, h⟩ := (sound_rule ih .expr).bind h
  obtain ⟨_, t₃, w₃, h₃, h⟩ := (sound_literal "\x7b").bind h
  obtain ⟨cs, t₄, w₄, h₄, h⟩ := (sound_star (sound_rule ih .caseStmt)).bind h
  obtain ⟨_, t₅, w₅, h₅, h⟩ := (sound_literal "\x7d").bind h
  obtain ⟨rfl, rfl⟩ := pure_ok.mp h
  exact ⟨_, .switchStmt h₁ h₂ (.between h₃ h₄ h₅)⟩

theorem sound_caseStmt (hi : LawfulInput input) (ih : SoundUpTo limits input n) :
    Rule.caseStmt.Sound limits input n := by
  intro s v s' h
  unfold Rule.production Grammar.caseStmt at h
  rw [here_bind] at h
  obtain ⟨c, t₁, w₁, h₁, h⟩ := (sound_caseHead ih).bind h
  obtain ⟨_, t₂, w₂, h₂, h⟩ := (sound_literal ":").bind h
  obtain ⟨ss, t₃, w₃, h₃, h⟩ := (sound_body hi (sound_rule ih .stmt)).bind h
  obtain ⟨rfl, rfl⟩ := pure_ok.mp h
  exact ⟨_, .caseStmt h₁ h₂ h₃⟩

theorem sound_enumCase : Rule.enumCase.Sound limits input n := by
  intro s v s' h
  unfold Rule.production Grammar.enumCase at h
  rw [here_bind] at h
  obtain ⟨_, t₁, w₁, h₁, h⟩ := (sound_literal ".").bind h
  obtain ⟨x, t₂, w₂, h₂, h⟩ := sound_name.bind h
  obtain ⟨y, t₃, w₃, h₃, h⟩ := (sound_optional (sound_between "(" ")" sound_name)).bind h
  obtain ⟨rfl, rfl⟩ := pure_ok.mp h
  exact ⟨_, .enumCase h₁ h₂ h₃⟩

theorem sound_reference (ih : SoundUpTo limits input n) : Rule.reference.Sound limits input n := by
  intro s v s' h
  unfold Rule.production Grammar.reference at h
  rw [here_bind] at h
  obtain ⟨x, t₁, w₁, h₁, h⟩ := sound_name.bind h
  obtain ⟨ss, t₂, w₂, h₂, h⟩ := (sound_star (sound_rule ih .selector)).bind h
  obtain ⟨rfl, rfl⟩ := pure_ok.mp h
  exact ⟨_, .reference h₁ h₂⟩

theorem sound_call (hi : LawfulInput input) (ih : SoundUpTo limits input n) :
    Rule.call.Sound limits input n := by
  intro s v s' h
  unfold Rule.production arguments at h
  rw [here_bind] at h
  obtain ⟨vs, t₁, w₁, h₁, h⟩ := (sound_listed "(" ")" hi (sound_rule ih .expr)).bind h
  obtain ⟨rfl, rfl⟩ := pure_ok.mp h
  exact ⟨_, .call h₁⟩

theorem sound_arrayLiteral (hi : LawfulInput input) (ih : SoundUpTo limits input n) :
    Rule.arrayLiteral.Sound limits input n := by
  intro s v s' h
  unfold Rule.production Grammar.arrayLiteral at h
  rw [here_bind] at h
  obtain ⟨vs, t₁, w₁, h₁, h⟩ := (sound_listed "[" "]" hi (sound_rule ih .expr)).bind h
  obtain ⟨rfl, rfl⟩ := pure_ok.mp h
  exact ⟨_, .arrayLiteral h₁⟩

theorem sound_dictOrSetLiteral (hi : LawfulInput input) (ih : SoundUpTo limits input n) :
    Rule.dictOrSetLiteral.Sound limits input n := by
  intro s v s' h
  unfold Rule.production Grammar.dictOrSetLiteral at h
  rw [here_bind] at h
  obtain ⟨vs, t₁, w₁, h₁, h⟩ := (sound_listed "\x7b" "\x7d" hi (sound_rule ih .entry)).bind h
  obtain ⟨rfl, rfl⟩ := pure_ok.mp h
  exact ⟨_, .dictOrSetLiteral h₁⟩

theorem sound_entry (ih : SoundUpTo limits input n) : Rule.entry.Sound limits input n := by
  intro s v s' h
  unfold Rule.production Grammar.entry at h
  rw [here_bind] at h
  obtain ⟨a, t₁, w₁, h₁, h⟩ := (sound_rule ih .expr).bind h
  obtain ⟨b, t₂, w₂, h₂, h⟩ := (sound_optional (sound_after ":" (sound_rule ih .expr))).bind h
  obtain ⟨rfl, rfl⟩ := pure_ok.mp h
  exact ⟨_, .entry h₁ h₂⟩

theorem sound_stmt (hi : LawfulInput input) (ih : SoundUpTo limits input n) :
    Rule.stmt.Sound limits input n := by
  intro s v s' h
  unfold Rule.production Grammar.stmt stmtAmong announcedStatements at h
  rw [here_bind] at h
  obtain h | ⟨t₁, hret, hc, h⟩ := choice_cons_ok.mp h
  · obtain ⟨u, t, w, hw, h⟩ := (sound_rule ih .returnStmt).bind h
    obtain ⟨rfl, rfl⟩ := pure_ok.mp h
    exact ⟨w, .retStmt hw⟩
  obtain h | ⟨t₂, -, -, h⟩ := choice_cons_ok.mp h
  · obtain ⟨u, t, w, hw, h⟩ := (sound_rule ih .ifStmt).bind h
    obtain ⟨rfl, rfl⟩ := pure_ok.mp h
    exact ⟨w, .condStmt hw⟩
  obtain h | ⟨t₃, -, -, h⟩ := choice_cons_ok.mp h
  · obtain ⟨u, t, w, hw, h⟩ := (sound_rule ih .forStmt).bind h
    obtain ⟨rfl, rfl⟩ := pure_ok.mp h
    exact ⟨w, .loopStmt hw⟩
  obtain h | ⟨t₄, -, -, h⟩ := choice_cons_ok.mp h
  · obtain ⟨u, t, w, hw, h⟩ := (sound_rule ih .switchStmt).bind h
    obtain ⟨rfl, rfl⟩ := pure_ok.mp h
    exact ⟨w, .chooseStmt hw⟩
  obtain h | ⟨t₅, hblock, hc', h⟩ := choice_cons_ok.mp h
  · obtain ⟨u, t, w, hw, h⟩ := (sound_rule ih .block).bind h
    obtain ⟨rfl, rfl⟩ := pure_ok.mp h
    exact ⟨w, .blockStmt hw⟩
  obtain h | ⟨t₆, -, -, h⟩ := choice_cons_ok.mp h
  · obtain ⟨u, t, w, hw, h⟩ := (sound_rule ih .varDecl).bind h
    obtain ⟨rfl, rfl⟩ := pure_ok.mp h
    exact ⟨w, .varStmt hw⟩
  obtain h | ⟨t₇, -, -, h⟩ := choice_cons_ok.mp h
  · obtain ⟨u, t, w, hw, h⟩ := (sound_rule ih .funcDecl).bind h
    obtain ⟨rfl, rfl⟩ := pure_ok.mp h
    exact ⟨w, .funcStmt hw⟩
  obtain h | ⟨t₈, -, -, h⟩ := choice_cons_ok.mp h
  · obtain ⟨u, t, w, hw, h⟩ := (sound_rule ih .classDecl).bind h
    obtain ⟨rfl, rfl⟩ := pure_ok.mp h
    exact ⟨w, .classStmt hw⟩
  obtain h | ⟨t₉, -, -, h⟩ := choice_cons_ok.mp h
  · obtain ⟨u, t, w, hw, h⟩ := (sound_rule ih .enumDecl).bind h
    obtain ⟨rfl, rfl⟩ := pure_ok.mp h
    exact ⟨w, .enumStmt hw⟩
  obtain h | ⟨t₁₀, -, -, h⟩ := choice_cons_ok.mp h
  · obtain ⟨e, t, he, h⟩ := bind_ok.mp h
    obtain ⟨rfl, rfl⟩ := pure_ok.mp h
    obtain ⟨w, hw⟩ := ih _ _ _ _ he
    -- a `return` and a block were tried before, and given up
    refine ⟨_, .exprStmt ?_ hw⟩
    exact exprStmt_opens hi (map_mismatch hret) rfl hc (map_mismatch hblock) rfl hc' he rfl
  · exact absurd h choice_nil_ok

theorem sound_caseSelect (ih : SoundUpTo limits input n) :
    Rule.caseSelect.Sound limits input n := by
  intro s v s' h
  unfold Rule.production Grammar.caseSelect at h
  rw [here_bind] at h
  obtain ⟨g, hg, t, ht, h⟩ := choice_ok h
  simp only [List.mem_cons, List.not_mem_nil, or_false] at hg
  rw [← ht] at hg ⊢
  rcases hg with rfl | rfl
  · obtain ⟨c, t', w, hw, h⟩ := (sound_rule ih .enumCase).bind h
    obtain ⟨rfl, rfl⟩ := pure_ok.mp h
    exact ⟨w, .enumSelect hw⟩
  · obtain ⟨e, t', w, hw, h⟩ := (sound_rule ih .expr).bind h
    obtain ⟨rfl, rfl⟩ := pure_ok.mp h
    exact ⟨w, .exprSelect hw⟩

theorem sound_expr (ih : SoundUpTo limits input n) : Rule.expr.Sound limits input n := by
  intro s v s' h
  unfold Rule.production Grammar.expr at h
  obtain ⟨t, ht, rfl⟩ := nested_ok h
  obtain ⟨w, hw⟩ := ih _ _ _ _ ht
  exact ⟨w, .expr hw⟩

theorem sound_binary (min : Power) (ih : SoundUpTo limits input n) :
    (Rule.binary min).Sound limits input n := by
  intro s v s' h
  rw [Rule.production_binary] at h
  obtain ⟨u, t₁, w₁, h₁, h⟩ := (sound_rule ih .unary).bind h
  -- the operand so far is derived, and it leaves an operator that follows to be the next
  let Operand (e : Expr Nat) (t : State) : Prop :=
    (∃ w, Derives limits input (.rule (.binary min)) s.cursor w t.cursor e) ∧
      ∀ op p, (tokenAt input t.cursor).binaryOperator? = some (op, p) → e.leaves p
  have hstart : Operand (.unary u.pos u) t₁ := ⟨⟨w₁, .operand h₁⟩, fun _ _ _ => trivial⟩
  have hround : ∀ e t e' t', Operand e t →
      exec input limits (Rule.run input limits n) (operation min e) t = ⟨.ok (some e'), t'⟩ →
      Operand e' t' := by
    rintro e t e' t' ⟨⟨w, hw⟩, hleaves⟩ hop
    rcases operation_ok hop with ⟨hn, -, -⟩ | ⟨op, p, right, he, hp, hr, hright⟩
    · cases hn
    cases he
    obtain ⟨w₂, h₂⟩ := ih _ _ _ _ hright
    refine ⟨⟨_, .operation hw hp hr (hleaves op p hp) h₂⟩, ?_⟩
    intro op' q hq q' hq'
    rw [Lexeme.power_of_binaryOperator hp] at hq'
    cases hq'
    exact binary_stops hright op' q hq
  obtain ⟨t, ⟨hd, -⟩, hlast⟩ := iterate_ok hround _ hstart h
  rcases operation_ok hlast with ⟨-, rfl, -⟩ | ⟨_, _, _, hs, -⟩
  · exact hd
  · cases hs

theorem sound_unary (ih : SoundUpTo limits input n) : Rule.unary.Sound limits input n := by
  intro s v s' h
  unfold Rule.production Grammar.unary at h
  obtain ⟨g, hg, t, ht, h⟩ := choice_ok h
  simp only [List.mem_cons, List.not_mem_nil, or_false] at hg
  rw [← ht]
  rcases hg with rfl | rfl
  · rw [here_bind] at h
    obtain ⟨sign, t₁, hsign, h⟩ := bind_ok.mp h
    obtain ⟨u, t₂, hu, h⟩ := bind_ok.mp h
    obtain ⟨rfl, rfl⟩ := pure_ok.mp h
    obtain ⟨t₃, hin, rfl⟩ := nested_ok hu
    obtain ⟨w, hw⟩ := ih _ _ _ _ hin
    obtain ⟨op, hop, hspelt, hvalue, rfl⟩ := unaryOperator_ok hsign
    rw [hvalue]
    exact ⟨_, .prefixed hop hspelt hw⟩
  · obtain ⟨u, t₁, w, hw, h⟩ := (sound_rule ih .terminal).bind h
    obtain ⟨rfl, rfl⟩ := pure_ok.mp h
    exact ⟨w, .terminal hw⟩

theorem sound_terminal (ih : SoundUpTo limits input n) : Rule.terminal.Sound limits input n := by
  intro s v s' h
  unfold Rule.production Grammar.terminal at h
  rw [here_bind] at h
  obtain ⟨g, hg, t, ht, h⟩ := choice_ok h
  simp only [List.mem_cons, List.not_mem_nil, or_false] at hg
  rw [← ht] at hg ⊢
  rcases hg with rfl | rfl | rfl | rfl | rfl
  · obtain ⟨u, t₁, w, hw, h⟩ := (sound_rule ih .arrayLiteral).bind h
    obtain ⟨rfl, rfl⟩ := pure_ok.mp h
    exact ⟨w, .arrayTerminal hw⟩
  · obtain ⟨u, t₁, w, hw, h⟩ := (sound_rule ih .dictOrSetLiteral).bind h
    obtain ⟨rfl, rfl⟩ := pure_ok.mp h
    exact ⟨w, .dictTerminal hw⟩
  · obtain ⟨_, t₁, w₁, h₁, h⟩ := (sound_literal "(").bind h
    obtain ⟨u, t₂, w₂, h₂, h⟩ := (sound_rule ih .expr).bind h
    obtain ⟨_, t₃, w₃, h₃, h⟩ := (sound_literal ")").bind h
    obtain ⟨rfl, rfl⟩ := pure_ok.mp h
    exact ⟨_, .parenTerminal (.between h₁ h₂ h₃)⟩
  · obtain ⟨u, t₁, w, hw, h⟩ := (sound_rule ih .literal).bind h
    obtain ⟨rfl, rfl⟩ := pure_ok.mp h
    exact ⟨w, .literalTerminal hw⟩
  · obtain ⟨u, t₁, w, hw, h⟩ := (sound_rule ih .reference).bind h
    obtain ⟨rfl, rfl⟩ := pure_ok.mp h
    exact ⟨w, .referenceTerminal hw⟩

theorem sound_literalValue : Rule.literal.Sound limits input n := by
  intro s v s' h
  unfold Rule.production literalValue at h
  rw [here_bind] at h
  obtain ⟨x, t₁, hx, h⟩ := bind_ok.mp h
  obtain ⟨rfl, rfl⟩ := pure_ok.mp h
  obtain ⟨g, hg, t, ht, hx⟩ := choice_ok hx
  simp only [List.mem_cons, List.not_mem_nil, or_false] at hg
  rw [← ht]
  rcases hg with rfl | rfl
  · obtain ⟨y, t₂, hy, hx⟩ := bind_ok.mp hx
    obtain ⟨rfl, rfl⟩ := pure_ok.mp hx
    obtain ⟨text, w, hw, hv⟩ := number_ok hy
    exact ⟨w, .number hw hv⟩
  · obtain ⟨y, t₂, w, hw, hx⟩ := sound_string.bind hx
    obtain ⟨rfl, rfl⟩ := pure_ok.mp hx
    exact ⟨w, .string hw⟩

theorem sound_selector (ih : SoundUpTo limits input n) : Rule.selector.Sound limits input n := by
  intro s v s' h
  unfold Rule.production Grammar.selector at h
  rw [here_bind] at h
  obtain ⟨g, hg, t, ht, h⟩ := choice_ok h
  simp only [List.mem_cons, List.not_mem_nil, or_false] at hg
  rw [← ht] at hg ⊢
  rcases hg with rfl | rfl | rfl
  · obtain ⟨_, t₁, w₁, h₁, h⟩ := (sound_literal ".").bind h
    obtain ⟨x, t₂, w₂, h₂, h⟩ := sound_name.bind h
    obtain ⟨rfl, rfl⟩ := pure_ok.mp h
    exact ⟨_, .memberSelector (.after h₁ h₂)⟩
  · obtain ⟨_, t₁, w₁, h₁, h⟩ := (sound_literal "[").bind h
    obtain ⟨e, t₂, w₂, h₂, h⟩ := (sound_rule ih .expr).bind h
    obtain ⟨_, t₃, w₃, h₃, h⟩ := (sound_literal "]").bind h
    obtain ⟨rfl, rfl⟩ := pure_ok.mp h
    exact ⟨_, .indexSelector (.between h₁ h₂ h₃)⟩
  · obtain ⟨c, t₁, w, hw, h⟩ := (sound_rule ih .call).bind h
    obtain ⟨rfl, rfl⟩ := pure_ok.mp h
    exact ⟨w, .callSelector hw⟩

theorem Rule.production_sound (hi : LawfulInput input) (ih : SoundUpTo limits input n)
    (r : Rule) : r.Sound limits input n := by
  cases r with
  | ast => exact sound_ast ih
  | rootDecl => exact sound_rootDecl hi ih
  | importDecl => exact sound_importDecl
  | enumDecl => exact sound_enumDecl hi ih
  | enumMember => exact sound_enumMember hi ih
  | caseDecl => exact sound_caseDecl ih
  | classDecl => exact sound_classDecl hi ih
  | classMember => exact sound_classMember hi ih
  | initialiserDecl => exact sound_initialiserDecl hi ih
  | parameters => exact sound_parameters ih
  | varDecl => exact sound_varDecl ih
  | varBinding => exact sound_varBinding ih
  | funcDecl => exact sound_funcDecl hi ih
  | typeDecl => exact sound_typeDecl hi ih
  | typeParam => exact sound_typeParam ih
  | stmt => exact sound_stmt hi ih
  | block => exact sound_block hi ih
  | returnStmt => exact sound_returnStmt ih
  | ifStmt => exact sound_ifStmt ih
  | forStmt => exact sound_forStmt ih
  | switchStmt => exact sound_switchStmt ih
  | caseStmt => exact sound_caseStmt hi ih
  | caseSelect => exact sound_caseSelect ih
  | enumCase => exact sound_enumCase
  | expr => exact sound_expr ih
  | binary min => exact sound_binary min ih
  | unary => exact sound_unary ih
  | terminal => exact sound_terminal ih
  | literal => exact sound_literalValue
  | reference => exact sound_reference ih
  | selector => exact sound_selector ih
  | call => exact sound_call hi ih
  | arrayLiteral => exact sound_arrayLiteral hi ih
  | dictOrSetLiteral => exact sound_dictOrSetLiteral hi ih
  | entry => exact sound_entry ih

end Rules

theorem Rule.run_sound (hi : LawfulInput input) (n : Nat) : SoundUpTo limits input n := by
  induction n with
  | zero =>
    intro r s v s' h
    cases h
  | succ n ih => exact fun r => production_sound hi ih r

/-- A whole source is read up to its end. -/
theorem Derives.ast_word {a : Ast Nat} (hi : LawfulInput input)
    (h : Derives limits input (.rule .ast) 0 w j a) :
    input.toList = Slot.yield w ++ [.eof] ∧ j + 1 = input.size := by
  obtain ⟨ls, hls, hne⟩ := hi
  have ht : ls ++ [.eof] = Slot.yield w ++ input.toList.drop j := by
    rw [← hls]
    simpa using h.tokens
  have hj : j = (Slot.yield w).length := by simpa using h.length
  have hk : (tokenAt input j).kind = .eof := by
    cases h with
    | ast _ ended => exact ended
  -- the word holds no end of the input, and no other token stands where it stops
  have hword : Slot.yield w = ls := by
    rcases List.append_eq_append_iff.mp ht with ⟨as, hw, ha⟩ | ⟨cs, hw, hc⟩
    · cases as with
      | nil => simpa using hw
      | cons a as =>
        simp only [List.cons_append, List.cons.injEq] at ha
        exact absurd (congrArg Lexeme.kind ha.1.symm) (h.solid a (by simp [hw]))
    · cases cs with
      | nil => simpa using hw.symm
      | cons c cs =>
        have hc : tokenAt input j = c := by
          unfold tokenAt
          rw [← Array.getElem?_toList, hls, hw, hj]
          simp
        rw [hc] at hk
        exact absurd hk (hne c (by simp [hw])).1
  rw [hword] at hj ⊢
  refine ⟨hls, ?_⟩
  rw [← Array.length_toList, hls, hj, List.length_append, List.length_singleton]

/-- A part that is no rule of its own, and the phrase that it reads. -/
inductive Phrase.ReadBy : (p : Phrase) → Grammar p.Result → Prop where
  | modifiers : ReadBy .modifiers Grammar.modifiers
  | enumMembers : ReadBy (.between "\x7b" "\x7d" (.body (.rule .enumMember)))
      (members (call .enumMember))
  | classMembers : ReadBy (.between "\x7b" "\x7d" (.body (.rule .classMember)))
      (members (call .classMember))
  | parameterList : ReadBy (.listed "(" ")" (.rule .parameters)) parameterList
  | statements : ReadBy (.body (.rule .stmt)) statements

/-- What such a part reads, in whatever state, is a word of its phrase. -/
theorem Phrase.ReadBy.derives {p : Phrase} {g : Grammar p.Result} {v : p.Result}
    (hg : p.ReadBy g) (hi : LawfulInput input) (h : g.run input limits s = ⟨.ok v, s'⟩) :
    ∃ w, Derives limits input p s.cursor w s'.cursor v ∧
      (input.extract s.cursor s'.cursor).toList = Slot.yield w := by
  have ih : SoundUpTo limits input (openRules input) := Rule.run_sound hi _
  obtain ⟨w, hw⟩ : ∃ w, Derives limits input p s.cursor w s'.cursor v := by
    cases hg with
    | modifiers => exact sound_modifiers hi s v s' h
    | enumMembers | classMembers => exact sound_members hi ih s v s' h
    | parameterList => exact sound_listed "(" ")" hi (sound_rule ih .parameters) s v s' h
    | statements => exact sound_body hi (sound_rule ih .stmt) s v s' h
  exact ⟨w, hw, hw.word⟩

/-- For every source whose scanning succeeds: whatever a rule reads, in whatever state, is a word of
that rule, and the value it returns records how it is derived. A whole tree records all tokens up to
the end of the input. -/
theorem parse_derives {file source : String} {tokens : List Token}
    (h : tokenize file source = .ok tokens) :
    let ts := TokenStream.ofTokens tokens
    (∀ (r : Rule) (s s' : State) (v : r.Result),
      (call r).run ts.lexemes .standard s = ⟨.ok v, s'⟩ →
      ∃ w, Derives .standard ts.lexemes (.rule r) s.cursor w s'.cursor v ∧
        (ts.lexemes.extract s.cursor s'.cursor).toList = Slot.yield w) ∧
    ∀ a, ts.tree = .ok a →
      ∃ b w, a = b.map ts.position ∧
        Derives .standard ts.lexemes (.rule .ast) 0 w (ts.lexemes.size - 1) b ∧
        ts.lexemes.toList = Slot.yield w ++ [.eof] := by
  intro ts
  have hi : LawfulInput ts.lexemes := tokenize_lawful h
  constructor
  · intro r s s' v hr
    obtain ⟨w, hw⟩ := Rule.run_sound hi _ r s v s' hr
    exact ⟨w, hw, hw.word⟩
  · intro a ha
    obtain ⟨b, s, hs, rfl⟩ := TokenStream.tree_ok ha
    rw [TokenStream.reply_eq] at hs
    obtain ⟨w, hw⟩ := Rule.run_sound hi _ .ast .start b s hs
    obtain ⟨hword, hsize⟩ := Derives.ast_word hi hw
    rw [← hsize, Nat.add_sub_cancel]
    exact ⟨b, w, rfl, hw, hword⟩

theorem parse_ok {file source : String} {a : Ast Position} (h : parse file source = .ok a) :
    ∃ tokens, tokenize file source = .ok tokens ∧ (TokenStream.ofTokens tokens).tree = .ok a := by
  unfold parse at h
  cases ht : tokenize file source with
  | error e =>
    rw [ht] at h
    cases h
  | ok tokens =>
    rw [ht] at h
    exact ⟨tokens, rfl, h⟩

theorem parse_derives_call :
    ∃ tokens a b w, tokenize "f" "pub fn f(){g(x,);}" = .ok tokens ∧
      (TokenStream.ofTokens tokens).tree = .ok a ∧
      a = b.map (TokenStream.ofTokens tokens).position ∧
      Derives .standard (TokenStream.ofTokens tokens).lexemes (.rule .ast) 0 w
        ((TokenStream.ofTokens tokens).lexemes.size - 1) b ∧
      (TokenStream.ofTokens tokens).lexemes.toList = Slot.yield w ++ [.eof] := by
  have hparse : (parse "f" "pub fn f(){g(x,);}").isOk = true := by decide +kernel
  obtain ⟨a, ha⟩ := Except.exists_of_isOk hparse
  obtain ⟨tokens, ht, ha⟩ := parse_ok ha
  obtain ⟨b, w, hb, hw, hword⟩ := (parse_derives ht).2 a ha
  exact ⟨tokens, a, b, w, ht, ha, hb, hw, hword⟩

end Syntree
