import Syntree.Proofs.Found

/-!
Types and declarations are found.
-/

namespace Syntree

open Grammar

variable {limits₀ limits : Limits} {room : Nat} {input : Array Lexeme} {i j k l : Nat}

/-! Types -/

theorem found_typeParameters (hi : LawfulInput input) {ps : List (TypeParam Nat)} {b : Bool}
    {w : List Slot} (opened : (tokenAt input i).spells "<" = true)
    (items : (Phrase.separated "," (.rule .typeParam)).Found limits room input (i + 1) ps j)
    (greedy : ∀ p ∈ ps.dropLast, p.constraints = [])
    (last : Derives limits₀ input (.separator ",") j w k b)
    (closed : (tokenAt input k).spells ">" = true) :
    Phrase.typeParameters.Found limits room input i ps (k + 1) := by
  intro _ n
  have hclose := hi.spelt closed
  have hitems : (Phrase.separated "," (.rule .typeParam)).Halts ps (tokenAt input j)
      (tokenAt input (j + 1)) := by
    refine ⟨fun hc => ⟨rfl, ?_⟩, fun v _ => ?_, fun v hv a b ha hs => ?_⟩
    · rcases separator_cases last with ⟨-, -, rfl⟩ | ⟨-, rfl⟩
      · rw [hclose]
        rfl
      · rw [hclose] at hc
        cases hc
    · rcases separator_cases last with ⟨-, hf, rfl⟩ | ⟨-, rfl⟩
      · rw [hf, hclose]
        rfl
      · rw [hclose]
        rfl
    · rw [Lexeme.eq_of_spells ha hs]
      simp only [Phrase.Halts, Rule.halts, greedy v hv, List.isEmpty_nil, Bool.or_true,
        Bool.and_true]
      rfl
  have hlast : (tokenAt input k).spells "," = false := by
    rw [hclose]
    rfl
  exact reads_bind (reads_literal opened) (reads_bind (items hitems n)
    (reads_bind (found_separator last hlast n) (reads_bind (reads_literal closed) (reads_pure _ _))))

theorem found_typeDecl {x : String} {ps : Option (List (TypeParam Nat))}
    (name : (Phrase.token .ident).Found limits room input i x j)
    (parameters : (Phrase.optional .typeParameters).Found limits room input j ps k) :
    (Phrase.rule .typeDecl).Found limits room input i ⟨i, x, ps.getD []⟩ k := by
  refine ⟨fun hh => reads_rule fun n => ?_, trivial⟩
  have hp : (Phrase.optional .typeParameters).Halts ps (tokenAt input k) (tokenAt input (k + 1)) := by
    cases ps with
    | none => exact ⟨rfl, by simpa [Rule.halts, Phrase.starts] using hh⟩
    | some => trivial
  exact reads_bind (reads_here i) (reads_bind (name trivial n)
    (reads_bind (parameters hp n) (reads_pure _ _)))

/-- Constraints that are there are not empty. -/
theorem constraints_ne_nil {w : List Slot} {cs : List (Reference Nat)}
    (h : Derives limits₀ input (.optional (.after ":" (.separated "," (.rule .reference)))) i w j
      (some cs)) : cs ≠ [] := by
  cases h with
  | optionalSome part =>
    cases part with
    | after mark part =>
      cases part with
      | separated => simp

theorem found_typeParam {x : String} {cs : Option (List (Reference Nat))} {w : List Slot}
    (name : (Phrase.token .ident).Found limits room input i x j)
    (derived : Derives limits₀ input
      (.optional (.after ":" (.separated "," (.rule .reference)))) j w k cs)
    (constraints : (Phrase.optional (.after ":" (.separated "," (.rule .reference)))).Found limits
      room input j cs k) :
    (Phrase.rule .typeParam).Found limits room input i ⟨i, x, cs.getD []⟩ k := by
  refine ⟨fun hh => reads_rule fun n => ?_, trivial⟩
  simp only [Rule.halts, Bool.and_eq_true, Bool.or_eq_true, Bool.not_eq_true'] at hh
  obtain ⟨⟨hcolon, hselector⟩, hcomma⟩ := hh
  have hc : (Phrase.optional (.after ":" (.separated "," (.rule .reference)))).Halts cs
      (tokenAt input k) (tokenAt input (k + 1)) := by
    cases cs with
    | none =>
      intro hc
      rw [hcolon] at hc
      cases hc
    | some cs =>
      refine ⟨fun hc => ⟨rfl, ?_⟩, fun v _ => ?_, fun v _ a b ha hs => ?_⟩
      · have hne := constraints_ne_nil derived
        simp only [Option.getD_some, List.isEmpty_iff, hne, or_false, hc, Bool.true_and] at hcomma
        exact hcomma
      · simp [Phrase.Halts, Rule.halts, hselector]
      · rw [Lexeme.eq_of_spells ha hs]
        rfl
  exact reads_bind (reads_here i) (reads_bind (name trivial n)
    (reads_bind (constraints hc n) (reads_pure _ _)))

/-! Declarations -/

theorem found_ast {ds : List (RootDecl Nat)}
    (declarations : (Phrase.star (.rule .rootDecl)).Found limits room input i ds j)
    (ended : (tokenAt input j).kind = .eof) :
    (Phrase.rule .ast).Found limits room input i ⟨i, ds⟩ j := by
  refine ⟨fun _ => reads_rule fun n => ?_, trivial⟩
  have hd : (Phrase.star (.rule .rootDecl)).Halts ds (tokenAt input j) (tokenAt input (j + 1)) := by
    refine ⟨⟨rfl, ?_⟩, fun v _ => ?_, fun v _ a b ha hs => ?_⟩
    · simp [Phrase.starts, Rule.starts, Lexeme.spells, ended]
    · simp [Phrase.Halts, Rule.halts, Lexeme.spells, ended]
    · cases hc : a.spells ";" with
      | false => simp [Phrase.Halts, Rule.halts, hc]
      | true =>
        rw [Lexeme.eq_of_spells ha hc] at hs
        cases hs
  exact reads_bind (reads_here i) (reads_bind (reads_many (declarations hd n))
    (reads_bind (reads_eof ended) (reads_pure _ _)))

/-- A declaration does not start with a modifier. -/
theorem kind_ne_modifier (hi : LawfulInput input) (words : List String)
    (hw : ∀ w ∈ words, Lexical.kindOf w ≠ .modifier)
    (h : words.any (tokenAt input i).spells = true) :
    (tokenAt input i).kind ≠ .modifier := by
  obtain ⟨w, hm, hs⟩ := List.any_eq_true.mp h
  rw [(hi.lawful i).kind_eq hs]
  exact hw w hm

theorem reads_modified {α β : Type} {g : Grammar α} {f : Nat → List Modifier → α → β}
    {ms : List Modifier} {d : α} {n : Nat}
    (modifiers : Phrase.modifiers.Found limits room input i ms j)
    (first : (tokenAt input j).kind ≠ .modifier) (hi : LawfulInput input)
    (decl : Reads input limits (room + 1) (Rule.run input limits n) g j d k) :
    Reads input limits (room + 1) (Rule.run input limits n)
      (do
        let pos ← here
        let ms ← Grammar.modifiers
        let d ← g
        return f pos ms d) i (f i ms d) k :=
  reads_bind (reads_here i) (reads_bind (modifiers.reads hi first n)
    (reads_bind decl (reads_pure _ _)))

theorem found_rootDecl (hi : LawfulInput input) {ms : List Modifier} {d : Decl Nat} {w : List Slot}
    (modifiers : Phrase.modifiers.Found limits room input i ms j)
    (derived : Derives limits₀ input .rootKind j w k d)
    (decl : Phrase.rootKind.Found limits room input j d k) :
    (Phrase.rule .rootDecl).Found limits room input i ⟨i, ms, d⟩ k := by
  refine ⟨fun hh => reads_rule fun n => ?_, trivial⟩
  have hs := derived.starts rfl
  have hk : (tokenAt input j).kind ≠ .modifier := 
    kind_ne_modifier hi ["class", "import", "enum", "let", "fn"] (by decide)
      (by simpa [Phrase.starts, or_assoc] using hs)
  exact reads_modified modifiers hk hi (decl (by simpa [Rule.halts, Phrase.Halts] using hh) n)

theorem found_classMember (hi : LawfulInput input) {ms : List Modifier} {d : Decl Nat}
    {w : List Slot} (modifiers : Phrase.modifiers.Found limits room input i ms j)
    (derived : Derives limits₀ input .classKind j w k d)
    (decl : Phrase.classKind.Found limits room input j d k) :
    (Phrase.rule .classMember).Found limits room input i ⟨i, ms, d⟩ k := by
  refine ⟨fun hh => reads_rule fun n => ?_, trivial⟩
  have hs := derived.starts rfl
  have hk : (tokenAt input j).kind ≠ .modifier := 
    kind_ne_modifier hi ["let", "fn", "class", "enum", "init"] (by decide)
      (by simpa [Phrase.starts, or_assoc] using hs)
  exact reads_modified modifiers hk hi (decl hh n)

theorem found_enumMember (hi : LawfulInput input) {ms : List Modifier} {d : Decl Nat}
    {w : List Slot} (modifiers : Phrase.modifiers.Found limits room input i ms j)
    (derived : Derives limits₀ input .enumKind j w k d)
    (decl : Phrase.enumKind.Found limits room input j d k) :
    (Phrase.rule .enumMember).Found limits room input i ⟨i, ms, d⟩ k := by
  refine ⟨fun hh => reads_rule fun n => ?_, trivial⟩
  have hs := derived.starts rfl
  have hk : (tokenAt input j).kind ≠ .modifier := 
    kind_ne_modifier hi ["case", "let", "fn", "class", "enum", "init"] (by decide)
      (by simpa [Phrase.starts, or_assoc] using hs)
  exact reads_modified modifiers hk hi (decl hh n)

/-! What may be declared. The alternatives before the one that is there start with other words. -/

section Kinds

variable {b : Bool} {w : List Slot}

theorem found_rootClass {d : ClassDecl Nat}
    (decl : (Phrase.rule .classDecl).Found limits room input i d j)
    (last : Derives limits₀ input (.separator ";") j w k b) :
    Phrase.rootKind.Found limits room input i (.classDecl d) k :=
  fun hh n => reads_choice_head (reads_bind (decl.1 rfl n)
    (reads_bind (found_separator last hh n) (reads_pure _ _)))

theorem found_rootImport (hi : LawfulInput input) {d : ImportDecl Nat}
    (first : (tokenAt input i).spells "import" = true)
    (decl : (Phrase.rule .importDecl).Found limits room input i d j)
    (last : Derives limits₀ input (.separator ";") j w k b) :
    Phrase.rootKind.Found limits room input i (.importDecl d) k := by
  intro hh n
  have ha := hi.spelt first
  exact reads_skip ha rfl (reads_choice_head
    (reads_bind (decl.1 rfl n) (reads_bind (found_separator last hh n) (reads_pure _ _))))

theorem found_rootEnum (hi : LawfulInput input) {d : EnumDecl Nat}
    (first : (tokenAt input i).spells "enum" = true)
    (decl : (Phrase.rule .enumDecl).Found limits room input i d j)
    (last : Derives limits₀ input (.separator ";") j w k b) :
    Phrase.rootKind.Found limits room input i (.enumDecl d) k := by
  intro hh n
  have ha := hi.spelt first
  exact reads_skip ha rfl (reads_skip ha rfl (reads_choice_head
    (reads_bind (decl.1 rfl n) (reads_bind (found_separator last hh n) (reads_pure _ _)))))

theorem found_rootVar (hi : LawfulInput input) {d : VarDecl Nat}
    (first : (tokenAt input i).spells "let" = true)
    (decl : (Phrase.rule .varDecl).Found limits room input i d j)
    (last : (tokenAt input j).spells ";" = true) :
    Phrase.rootKind.Found limits room input i (.varDecl d) (j + 1) := by
  intro _ n
  have ha := hi.spelt first
  have hd : Rule.varDecl.halts d (tokenAt input j) (tokenAt input (j + 1)) = true := by
    rw [hi.spelt last]
    rfl
  exact reads_skip ha rfl (reads_skip ha rfl (reads_skip ha rfl (reads_choice_head
    (reads_bind (decl.1 hd n) (reads_bind (reads_literal last) (reads_pure _ _))))))

theorem found_rootFunc (hi : LawfulInput input) {d : FuncDecl Nat}
    (first : (tokenAt input i).spells "fn" = true)
    (decl : (Phrase.rule .funcDecl).Found limits room input i d j)
    (last : Derives limits₀ input (.separator ";") j w k b) :
    Phrase.rootKind.Found limits room input i (.funcDecl d) k := by
  intro hh n
  have ha := hi.spelt first
  exact reads_skip ha rfl (reads_skip ha rfl (reads_skip ha rfl (reads_skip ha rfl
    (reads_choice_head (reads_bind (decl.1 rfl n)
      (reads_bind (found_separator last hh n) (reads_pure _ _)))))))

/-- Before what ends a member an expression ends too. -/
theorem Lexeme.endsMember_cases {a : Lexeme} (ha : a.Lawful) (h : a.endsMember = true) :
    a = ⟨.punct, ";"⟩ ∨ a = ⟨.punct, "\x7d"⟩ := by
  simp only [Lexeme.endsMember, Bool.or_eq_true] at h
  rcases h with h | h
  · exact .inl (Lexeme.eq_of_spells ha h)
  · exact .inr (Lexeme.eq_of_spells ha h)

theorem found_varKind (hi : LawfulInput input) {d : VarDecl Nat}
    (decl : (Phrase.rule .varDecl).Found limits room input i d j) :
    Phrase.classKind.Found limits room input i (.varDecl d) j := by
  intro hh n
  have hd : Rule.varDecl.halts d (tokenAt input j) (tokenAt input (j + 1)) = true := by
    rcases Lexeme.endsMember_cases (hi.lawful j) hh with hj | hj
    all_goals
      rw [hj]
      rfl
  exact reads_choice_head (reads_bind (decl.1 hd n) (reads_pure _ _))

theorem found_funcKind (hi : LawfulInput input) {d : FuncDecl Nat}
    (first : (tokenAt input i).spells "fn" = true)
    (decl : (Phrase.rule .funcDecl).Found limits room input i d j) :
    Phrase.classKind.Found limits room input i (.funcDecl d) j := by
  intro _ n
  have ha := hi.spelt first
  exact reads_skip ha rfl (reads_choice_head (reads_bind (decl.1 rfl n) (reads_pure _ _)))

theorem found_innerClass (hi : LawfulInput input) {d : ClassDecl Nat}
    (first : (tokenAt input i).spells "class" = true)
    (decl : (Phrase.rule .classDecl).Found limits room input i d j) :
    Phrase.classKind.Found limits room input i (.classDecl d) j := by
  intro _ n
  have ha := hi.spelt first
  exact reads_skip ha rfl (reads_skip ha rfl (reads_choice_head
    (reads_bind (decl.1 rfl n) (reads_pure _ _))))

theorem found_innerEnum (hi : LawfulInput input) {d : EnumDecl Nat}
    (first : (tokenAt input i).spells "enum" = true)
    (decl : (Phrase.rule .enumDecl).Found limits room input i d j) :
    Phrase.classKind.Found limits room input i (.enumDecl d) j := by
  intro _ n
  have ha := hi.spelt first
  exact reads_skip ha rfl (reads_skip ha rfl (reads_skip ha rfl (reads_choice_head
    (reads_bind (decl.1 rfl n) (reads_pure _ _)))))

theorem found_initialiserKind (hi : LawfulInput input) {d : InitialiserDecl Nat}
    (first : (tokenAt input i).spells "init" = true)
    (decl : (Phrase.rule .initialiserDecl).Found limits room input i d j) :
    Phrase.classKind.Found limits room input i (.initialiser d) j := by
  intro _ n
  have ha := hi.spelt first
  exact reads_skip ha rfl (reads_skip ha rfl (reads_skip ha rfl (reads_skip ha rfl
    (reads_choice_head (reads_bind (decl.1 rfl n) (reads_pure _ _))))))

theorem found_caseKind (hi : LawfulInput input) {d : CaseDecl Nat}
    (decl : (Phrase.rule .caseDecl).Found limits room input i d j) :
    Phrase.enumKind.Found limits room input i (.caseDecl d) j := by
  intro hh n
  have hd : Rule.caseDecl.halts d (tokenAt input j) (tokenAt input (j + 1)) = true := by
    rcases Lexeme.endsMember_cases (hi.lawful j) hh with hj | hj
    all_goals
      rw [hj]
      rfl
  exact reads_choice_head (reads_bind (decl.1 hd n) (reads_pure _ _))

/-- An enum takes what a class takes, after its cases. -/
theorem found_memberKind (hi : LawfulInput input) {d : Decl Nat}
    (derived : Derives limits₀ input .classKind i w j d)
    (decl : Phrase.classKind.Found limits room input i d j) :
    Phrase.enumKind.Found limits room input i d j := by
  intro hh n
  have hs : Rule.caseDecl.starts (tokenAt input i) = false := by
    cases hc : (tokenAt input i).spells "case" with
    | false => exact hc
    | true =>
      have hd := derived.starts rfl
      rw [hi.spelt hc] at hd
      cases hd
  exact reads_skip rfl hs (decl hh n)

end Kinds

theorem halts_parameterList {vs : List (Parameters Nat)} {a b : Lexeme} :
    (Phrase.listed "(" ")" (.rule .parameters)).Halts vs a b :=
  halts_listed rfl (by decide) (by decide) fun _ _ => ⟨rfl, rfl⟩

/-- A part in braces with semicolons, as declarations of types read it. -/
theorem reads_members (hi : LawfulInput input) {r : Rule} {vs : List r.Result}
    (hh : ∀ b, (Phrase.body (.rule r)).Halts vs ⟨.punct, "\x7d"⟩ b)
    (h : (Phrase.between "\x7b" "\x7d" (.body (.rule r))).Found limits room input i vs j) (n : Nat) :
    Reads input limits (room + 2) (Rule.run input limits n) (members (call r)) i vs j := by
  obtain ⟨hopen, k, hbody, hclose, rfl⟩ := h
  have hk : tokenAt input k = ⟨.punct, "\x7d"⟩ := hi.spelt hclose
  obtain ⟨l, hl⟩ := hbody (by rw [hk]; exact hh _)
  exact reads_bind (reads_literal hopen) (reads_bind (reads_nested (hl n).1)
    (reads_bind ((hl n).2.mono (Nat.le_succ _)) (reads_bind (reads_literal hclose) (reads_pure _ _))))

theorem found_enumDecl (hi : LawfulInput input) {t : TypeDecl Nat} {ms : List (EnumMember Nat)}
    (mark : (tokenAt input i).spells "enum" = true)
    (type : (Phrase.rule .typeDecl).Found limits (room + 1) input (i + 1) t j)
    (members : (Phrase.between "\x7b" "\x7d" (.body (.rule .enumMember))).Found limits room input
      j ms k) :
    (Phrase.rule .enumDecl).Found limits (room + 1) input i ⟨i, t, ms⟩ k := by
  refine ⟨fun _ => reads_rule fun n => ?_, trivial⟩
  have ht : Rule.typeDecl.halts t (tokenAt input j) (tokenAt input (j + 1)) = true := by
    rw [hi.spelt members.1]
    rfl
  have hm := reads_members hi
    (fun _ => halts_body rfl rfl rfl (fun _ => rfl) (fun _ _ => rfl)) members n
  exact reads_bind (reads_here i) (reads_bind (reads_literal mark)
    (reads_bind (type.1 ht n) (reads_bind hm (reads_pure _ _))))

theorem found_classDecl (hi : LawfulInput input) {t : TypeDecl Nat} {ms : List (ClassMember Nat)}
    (mark : (tokenAt input i).spells "class" = true)
    (type : (Phrase.rule .typeDecl).Found limits (room + 1) input (i + 1) t j)
    (members : (Phrase.between "\x7b" "\x7d" (.body (.rule .classMember))).Found limits room input
      j ms k) :
    (Phrase.rule .classDecl).Found limits (room + 1) input i ⟨i, t, ms⟩ k := by
  refine ⟨fun _ => reads_rule fun n => ?_, trivial⟩
  have ht : Rule.typeDecl.halts t (tokenAt input j) (tokenAt input (j + 1)) = true := by
    rw [hi.spelt members.1]
    rfl
  have hm := reads_members hi
    (fun _ => halts_body rfl rfl rfl (fun _ => rfl) (fun _ _ => rfl)) members n
  exact reads_bind (reads_here i) (reads_bind (reads_literal mark)
    (reads_bind (type.1 ht n) (reads_bind hm (reads_pure _ _))))

theorem found_importDecl {x : Option String} {path : String}
    (mark : (tokenAt input i).spells "import" = true)
    (given : (Phrase.optional (.token .ident)).Found limits room input (i + 1) x j)
    (kind : (tokenAt input j).kind = .string)
    (text : (Phrase.token .string).Found limits room input j path k) :
    (Phrase.rule .importDecl).Found limits room input i ⟨i, x, path⟩ k := by
  refine ⟨fun _ => reads_rule fun n => ?_, trivial⟩
  have hx : (Phrase.optional (.token .ident)).Halts x (tokenAt input j) (tokenAt input (j + 1)) := by
    cases x with
    | none => exact ⟨rfl, by simp [Phrase.starts, kind]⟩
    | some => trivial
  exact reads_bind (reads_here i) (reads_bind (reads_literal mark)
    (reads_bind (given hx n) (reads_bind (text trivial n) (reads_pure _ _))))

theorem found_caseDecl {x : String} {t : Option (TypeDecl Nat)}
    (mark : (tokenAt input i).spells "case" = true)
    (name : (Phrase.token .ident).Found limits room input (i + 1) x j)
    (payload : (Phrase.optional (.between "(" ")" (.rule .typeDecl))).Found limits room input
      j t k) :
    (Phrase.rule .caseDecl).Found limits room input i ⟨i, x, t⟩ k := by
  refine ⟨fun hh => reads_rule fun n => ?_, trivial⟩
  have hp : (Phrase.optional (.between "(" ")" (.rule .typeDecl))).Halts t (tokenAt input k)
      (tokenAt input (k + 1)) := by
    cases t with
    | none => exact ⟨rfl, by simpa [Rule.halts, Phrase.starts] using hh⟩
    | some t =>
      intro a b ha hs
      rw [Lexeme.eq_of_spells ha hs]
      rfl
  exact reads_bind (reads_here i) (reads_bind (reads_literal mark)
    (reads_bind (name trivial n) (reads_bind (payload hp n) (reads_pure _ _))))

theorem found_initialiserDecl (hi : LawfulInput input) {ps : List (Parameters Nat)} {b : Bool}
    {a : Block Nat} (mark : (tokenAt input i).spells "init" = true)
    (parameters : (Phrase.listed "(" ")" (.rule .parameters)).Found limits room input (i + 1) ps j)
    (throws : (Phrase.flag "throws").Found limits room input j b k)
    (brace : (tokenAt input k).spells "\x7b" = true)
    (body : (Phrase.rule .block).Found limits room input k a l) :
    (Phrase.rule .initialiserDecl).Found limits room input i ⟨i, ps, b, a⟩ l := by
  refine ⟨fun _ => reads_rule fun n => ?_, trivial⟩
  have hb : (tokenAt input k).spells "throws" = false := by
    rw [hi.spelt brace]
    rfl
  exact reads_bind (reads_here i) (reads_bind (reads_literal mark)
    (reads_bind (parameters halts_parameterList n) (reads_bind (throws hb n)
      (reads_bind (body.1 rfl n) (reads_pure _ _)))))

theorem found_parameters (hi : LawfulInput input) {xs : List String} {t : Reference Nat}
    (names : (Phrase.separated "," (.token .ident)).Found limits room input i xs j)
    (mark : (tokenAt input j).spells ":" = true)
    (type : (Phrase.rule .reference).Found limits room input (j + 1) t k) :
    (Phrase.rule .parameters).Found limits room input i ⟨i, xs, t⟩ k := by
  refine ⟨fun hh => reads_rule fun n => ?_, trivial⟩
  have hn : (Phrase.separated "," (.token .ident)).Halts xs (tokenAt input j)
      (tokenAt input (j + 1)) := by
    refine ⟨fun hc => ?_, fun _ _ => trivial, fun _ _ _ _ _ _ => trivial⟩
    rw [hi.spelt mark] at hc
    cases hc
  exact reads_bind (reads_here i) (reads_bind (names hn n) (reads_bind (reads_literal mark)
    (reads_bind (type.1 hh n) (reads_pure _ _))))

theorem found_varDecl {vs : List (VarBinding Nat)} (mark : (tokenAt input i).spells "let" = true)
    (vars : (Phrase.separated "," (.rule .varBinding)).Found limits room input (i + 1) vs j) :
    (Phrase.rule .varDecl).Found limits room input i ⟨i, vs⟩ j := by
  refine ⟨fun hh => reads_rule fun n => ?_, trivial⟩
  simp only [Rule.halts, Bool.and_eq_true, Bool.not_eq_true', Bool.and_eq_false_imp] at hh
  obtain ⟨⟨hend, hcolon⟩, hcomma⟩ := hh
  have hv : (Phrase.separated "," (.rule .varBinding)).Halts vs (tokenAt input j)
      (tokenAt input (j + 1)) := by
    refine ⟨fun hc => ⟨rfl, hcomma hc⟩, fun v _ => ?_, fun v _ a b ha hs => ?_⟩
    · simp [Phrase.Halts, Rule.halts, hend, hcolon]
    · rw [Lexeme.eq_of_spells ha hs]
      rfl
  exact reads_bind (reads_here i) (reads_bind (reads_literal mark)
    (reads_bind (vars hv n) (reads_pure _ _)))

theorem found_varBinding (hi : LawfulInput input) {x : String} {t : Option (Reference Nat)}
    {e : Option (Expr Nat)} {w : List Slot}
    (name : (Phrase.token .ident).Found limits room input i x j)
    (type : (Phrase.optional (.after ":" (.rule .reference))).Found limits room input j t k)
    (derived : Derives limits₀ input (.optional (.after "=" (.rule .expr))) k w l e)
    (value : (Phrase.optional (.after "=" (.rule .expr))).Found limits room input k e l) :
    (Phrase.rule .varBinding).Found limits room input i ⟨i, x, t, e⟩ l := by
  refine ⟨fun hh => reads_rule fun n => ?_, trivial⟩
  simp only [Rule.halts, Bool.and_eq_true, Bool.not_eq_true'] at hh
  obtain ⟨hend, hcolon⟩ := hh
  have hk : (tokenAt input k).spells ":" = false ∧ (tokenAt input k).startsSelector = false := by
    rcases optional_cases derived with ⟨-, rfl⟩ | hm
    · simp only [Lexeme.endsExpr, Bool.and_eq_true, Bool.not_eq_true'] at hend
      exact ⟨hcolon, hend.1⟩
    · rw [hi.spelt hm]
      exact ⟨rfl, rfl⟩
  have ht : (Phrase.optional (.after ":" (.rule .reference))).Halts t (tokenAt input k)
      (tokenAt input (k + 1)) := by
    cases t with
    | none =>
      intro hc
      rw [hk.1] at hc
      cases hc
    | some t => simp [Phrase.Halts, Rule.halts, hk.2]
  have he : (Phrase.optional (.after "=" (.rule .expr))).Halts e (tokenAt input l)
      (tokenAt input (l + 1)) := by
    cases e with
    | none =>
      intro hc
      rw [hi.spelt hc] at hend
      cases hend
    | some e => exact hend
  exact reads_bind (reads_here i) (reads_bind (name trivial n) (reads_bind (type ht n)
    (reads_bind (value he n) (reads_pure _ _))))

theorem found_funcDecl (hi : LawfulInput input) {x : String} {ps : List (Parameters Nat)} {b : Bool}
    {t : Option (Reference Nat)} {a : Block Nat} {w : List Slot} {m o : Nat}
    (mark : (tokenAt input i).spells "fn" = true)
    (name : (Phrase.token .ident).Found limits room input (i + 1) x j)
    (parameters : (Phrase.listed "(" ")" (.rule .parameters)).Found limits room input j ps k)
    (throws : (Phrase.flag "throws").Found limits room input k b l)
    (derived : Derives limits₀ input (.optional (.after ":" (.rule .reference))) l w m t)
    (result : (Phrase.optional (.after ":" (.rule .reference))).Found limits room input l t m)
    (brace : (tokenAt input m).spells "\x7b" = true)
    (body : (Phrase.rule .block).Found limits room input m a o) :
    (Phrase.rule .funcDecl).Found limits room input i ⟨i, x, ps, b, t, a⟩ o := by
  refine ⟨fun _ => reads_rule fun n => ?_, trivial⟩
  have hm := hi.spelt brace
  have hb : (tokenAt input l).spells "throws" = false := by
    rcases optional_cases derived with ⟨-, rfl⟩ | hc
    · rw [hm]
      rfl
    · rw [hi.spelt hc]
      rfl
  have ht : (Phrase.optional (.after ":" (.rule .reference))).Halts t (tokenAt input m)
      (tokenAt input (m + 1)) := by
    rw [hm]
    cases t with
    | none =>
      intro hc
      cases hc
    | some t => rfl
  exact reads_bind (reads_here i) (reads_bind (reads_literal mark) (reads_bind (name trivial n)
    (reads_bind (parameters halts_parameterList n) (reads_bind (throws hb n)
      (reads_bind (result ht n) (reads_bind (body.1 rfl n) (reads_pure _ _)))))))

end Syntree
