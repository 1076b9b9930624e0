import Syntree.Proofs.Positions
import Syntree.Proofs.Progress

/-!
Runs of one grammar in two places.

Where the tokens of one input are found again in another, `shift` indices further on, a run that
starts there reads the same, only that all positions have moved. Neither the level of the start nor
what is on record has a part in this, so that the relation between the two runs can be followed
through all combinators.
-/

namespace Syntree

open Grammar

/-- The result of a rule with its positions changed. -/
def Rule.relocate (f : Nat → Nat) : (r : Rule) → r.Result → r.Result
  | ast => Ast.map f
  | rootDecl => RootDecl.map f
  | importDecl => ImportDecl.map f
  | enumDecl => EnumDecl.map f
  | enumMember => EnumMember.map f
  | caseDecl => CaseDecl.map f
  | classDecl => ClassDecl.map f
  | classMember => ClassMember.map f
  | initialiserDecl => InitialiserDecl.map f
  | parameters => Parameters.map f
  | varDecl => VarDecl.map f
  | varBinding => VarBinding.map f
  | funcDecl => FuncDecl.map f
  | typeDecl => TypeDecl.map f
  | typeParam => TypeParam.map f
  | stmt => Stmt.map f
  | block => Block.map f
  | returnStmt => ReturnStmt.map f
  | ifStmt => IfStmt.map f
  | forStmt => ForStmt.map f
  | switchStmt => SwitchStmt.map f
  | caseStmt => CaseStmt.map f
  | caseSelect => CaseSelect.map f
  | enumCase => EnumCase.map f
  | expr => Expr.map f
  | binary _ => Expr.map f
  | unary => Unary.map f
  | terminal => Terminal.map f
  | literal => Literal.map f
  | reference => Reference.map f
  | selector => Selector.map f
  | call => Call.map f
  | arrayLiteral => ArrayLiteral.map f
  | dictOrSetLiteral => DictOrSetLiteral.map f
  | entry => Entry.map f

def Fatal.relocate (f : Nat → Nat) : Fatal → Fatal
  | numberOutOfRange text index => .numberOutOfRange text (f index)
  | nestingTooDeep limit index => .nestingTooDeep limit (f index)

/-- The tokens of an input up to its end, found again in another input. -/
structure Relocation (input input' : Array Lexeme) where
  shift : Nat
  /-- The index of a token that ends the input. -/
  last : Nat
  /-- Where an index goes. Past the end of the input this is free. -/
  place : Nat → Nat
  place_eq : ∀ i ≤ last, place i = i + shift
  token_eq : ∀ i ≤ last, tokenAt input' (i + shift) = tokenAt input i
  ends : (tokenAt input last).kind = .eof
  size_eq : input'.size = input.size + shift

namespace Relocation

variable {α β γ δ : Type} {input input' : Array Lexeme} (m : Relocation input input')

/-- States at corresponding places. -/
structure Beside (s s' : State) : Prop where
  cursor : s'.cursor = s.cursor + m.shift
  depth : s'.depth = s.depth
  le : s.cursor ≤ m.last

/-- Runs that end alike, unless one of them was cut short. -/
inductive Alike (f : α → β) : Reply α → Reply β → Prop where
  | ok {v : α} {t t' : State} (beside : m.Beside t t') : Alike f ⟨.ok v, t⟩ ⟨.ok (f v), t'⟩
  | mismatch {t t' : State} (beside : m.Beside t t') : Alike f ⟨.mismatch, t⟩ ⟨.mismatch, t'⟩
  | fatal {e : Fatal} {t t' : State} : Alike f ⟨.fatal e, t⟩ ⟨.fatal (e.relocate m.place), t'⟩
  | exhaustedLeft {t : State} {r : Reply β} : Alike f ⟨.exhausted, t⟩ r
  | exhaustedRight {r : Reply α} {t : State} : Alike f r ⟨.exhausted, t⟩

variable {m} {f : α → β} {limits : Limits}

theorem Beside.token {s s' : State} (h : m.Beside s s') :
    tokenAt input' s'.cursor = tokenAt input s.cursor := by
  rw [h.cursor, m.token_eq _ h.le]

theorem Beside.step {s s' : State} (h : m.Beside s s') :
    m.Beside (Grammar.step input s).state (Grammar.step input' s').state := by
  simp only [Grammar.step, h.token]
  split
  · exact h
  · next hk =>
    have hne : s.cursor ≠ m.last := fun he => hk (he ▸ m.ends)
    refine ⟨?_, h.depth, Nat.lt_of_le_of_ne h.le hne⟩
    simp only [h.cursor, Nat.add_right_comm]

theorem step_alike {s s' : State} (h : m.Beside s s') :
    m.Alike id (Grammar.step input s) (Grammar.step input' s') := by
  have hl : Grammar.step input' s' =
      ⟨.ok (tokenAt input s.cursor), (Grammar.step input' s').state⟩ := by
    simp only [Grammar.step, h.token]
  rw [hl]
  exact .ok h.step

theorem Alike.andThen {h : γ → δ} {r : Reply γ} {r' : Reply δ} {k : γ → State → Reply α}
    {k' : δ → State → Reply β} (hr : m.Alike h r r')
    (hk : ∀ v t t', m.Beside t t' → m.Alike f (k v t) (k' (h v) t')) :
    m.Alike f (r.andThen k) (r'.andThen k') := by
  cases hr with
  | ok beside => exact hk _ _ _ beside
  | mismatch beside => exact .mismatch beside
  | fatal => exact .fatal
  | exhaustedLeft => exact .exhaustedLeft
  | exhaustedRight => exact .exhaustedRight

theorem Alike.orElse {i : Nat} {r : Reply α} {r' : Reply β} {k : State → Reply α}
    {k' : State → Reply β} (hr : m.Alike f r r') (hi : i ≤ m.last)
    (hk : ∀ t t', m.Beside t t' → m.Alike f (k t) (k' t')) :
    m.Alike f (r.orElse limits i k) (r'.orElse limits (i + m.shift) k') := by
  cases hr with
  | ok beside => exact .ok beside
  | @mismatch t t' beside =>
    have hc : limits.committed (i + m.shift) t'.cursor = limits.committed i t.cursor := by
      simp only [Limits.committed, beside.cursor]
      congr 1
      funext n
      exact decide_eq_decide.mpr (by omega)
    simp only [Reply.orElse, hc]
    split
    · exact .mismatch beside
    · exact hk _ _ ⟨rfl, beside.depth, hi⟩
  | fatal => exact .fatal
  | exhaustedLeft => exact .exhaustedLeft
  | exhaustedRight => exact .exhaustedRight

/-! How the second run ends, unless it was cut short -/

section

variable {r : Reply β} {t : State}

theorem Alike.of_ok {v : α} (h : m.Alike f ⟨.ok v, t⟩ r) (hr : r.outcome ≠ .exhausted) :
    ∃ t', r = ⟨.ok (f v), t'⟩ ∧ m.Beside t t' := by
  cases h with
  | ok beside => exact ⟨_, rfl, beside⟩
  | exhaustedRight => exact absurd rfl hr

theorem Alike.of_fatal {e : Fatal} (h : m.Alike f ⟨.fatal e, t⟩ r) (hr : r.outcome ≠ .exhausted) :
    ∃ t', r = ⟨.fatal (e.relocate m.place), t'⟩ := by
  cases h with
  | fatal => exact ⟨_, rfl⟩
  | exhaustedRight => exact absurd rfl hr

end

theorem iterate_alike {k : α → State → Reply (Option α)} {k' : β → State → Reply (Option β)}
    (hk : ∀ v t t', m.Beside t t' → m.Alike (Option.map f) (k v t) (k' (f v) t')) (n : Nat) (v : α)
    {s s' : State} (hs : m.Beside s s') :
    m.Alike f (iterate k n v s) (iterate k' n (f v) s') := by
  induction n generalizing v s s' with
  | zero => exact .exhaustedLeft
  | succ n ih =>
    refine (hk v s s' hs).andThen fun o t t' ht => ?_
    cases o with
    | none => exact .ok ht
    | some u => exact ih u ht

/-! Grammars -/

variable (m limits) in
/-- Whether two grammars read the same in the two places, with `n` and `n'` rules open. -/
def Relates (n n' : Nat) (f : α → β) (g : Grammar α) (g' : Grammar β) : Prop :=
  ∀ s s', m.Beside s s' → m.Alike f (exec input limits (Rule.run input limits n) g s)
    (exec input' limits (Rule.run input' limits n') g' s')

variable {n n' : Nat}

namespace Relates

theorem pure {v : α} {v' : β} (hv : v' = f v) : m.Relates limits n n' f (pure v) (pure v') := by
  intro s s' hs
  rw [hv]
  exact .ok hs

theorem bind {h : γ → δ} {g : Grammar γ} {g' : Grammar δ} {k : γ → Grammar α} {k' : δ → Grammar β}
    (hg : m.Relates limits n n' h g g') (hk : ∀ v, m.Relates limits n n' f (k v) (k' (h v))) :
    m.Relates limits n n' f (g >>= k) (g' >>= k') :=
  fun s s' hs => (hg s s' hs).andThen fun v t t' ht => hk v t t' ht

theorem here : m.Relates limits n n' m.place here here := by
  intro s s' hs
  have hp : s'.cursor = m.place s.cursor := by rw [hs.cursor, m.place_eq _ hs.le]
  simp only [exec, hp]
  exact .ok hs

theorem expect (es : List Expectation) :
    m.Relates limits n n' id (expect es) (expect es) := by
  intro s s' hs
  simp only [exec, hs.token]
  split
  · exact step_alike hs
  · exact .mismatch ⟨hs.cursor, hs.depth, hs.le⟩

theorem operatorAbove (min : Power) :
    m.Relates limits n n' id (operatorAbove min) (operatorAbove min) := by
  intro s s' hs
  simp only [exec, hs.token]
  split
  · exact .ok hs
  · split
    · exact .ok hs
    · exact .ok hs.step

theorem fail : m.Relates limits n n' f fail fail :=
  fun _ _ hs => .mismatch hs

theorem reject {e e' : Fatal} (he : e' = e.relocate m.place) :
    m.Relates limits n n' f (reject e) (reject e') := by
  intro s s' hs
  rw [he]
  exact .fatal

theorem orElse {a b : Grammar α} {a' b' : Grammar β} (ha : m.Relates limits n n' f a a')
    (hb : m.Relates limits n n' f b b') :
    m.Relates limits n n' f (orElse a b) (orElse a' b') := by
  intro s s' hs
  rw [exec_orElse, exec_orElse, hs.cursor]
  exact (ha s s' hs).orElse hs.le hb

theorem loop {v : α} {v' : β} {k : α → Grammar (Option α)} {k' : β → Grammar (Option β)}
    (hv : v' = f v) (hk : ∀ v, m.Relates limits n n' (Option.map f) (k v) (k' (f v))) :
    m.Relates limits n n' f (loop v k) (loop v' k') := by
  intro s s' hs
  have hn : input'.size - s'.cursor = input.size - s.cursor := by
    rw [m.size_eq, hs.cursor, Nat.add_sub_add_right]
  simp only [exec, hn, hv]
  exact iterate_alike hk _ v hs

theorem nested {g : Grammar α} {g' : Grammar β} (hg : m.Relates limits n n' f g g') :
    m.Relates limits n n' f (nested g) (nested g') := by
  intro s s' hs
  have hp : s'.cursor = m.place s.cursor := by rw [hs.cursor, m.place_eq _ hs.le]
  simp only [exec, hs.depth]
  split
  · next limit _ =>
    rw [hp]
    exact @Alike.fatal _ _ _ _ m f (.nestingTooDeep limit s.cursor) s s'
  · have hr := hg { s with depth := s.depth + 1 } { s' with depth := s.depth + 1 }
      ⟨hs.cursor, rfl, hs.le⟩
    generalize exec input limits _ g _ = r at hr ⊢
    generalize exec input' limits _ g' _ = r' at hr ⊢
    cases hr with
    | ok beside => exact .ok ⟨beside.cursor, congrArg (· - 1) beside.depth, beside.le⟩
    | mismatch beside => exact .mismatch ⟨beside.cursor, congrArg (· - 1) beside.depth, beside.le⟩
    | fatal => exact .fatal
    | exhaustedLeft => exact .exhaustedLeft
    | exhaustedRight => exact .exhaustedRight

/-! Combinations -/

theorem literal (text : String) : m.Relates limits n n' id (literal text) (literal text) :=
  .bind (.expect _) fun _ => .pure rfl

theorem token (kind : TokenKind) : m.Relates limits n n' id (token kind) (token kind) :=
  .bind (.expect _) fun _ => .pure rfl

theorem choice_nil : m.Relates limits n n' f (choice []) (choice []) := fail

theorem choice_cons {g : Grammar α} {g' : Grammar β} {gs : List (Grammar α)}
    {gs' : List (Grammar β)} (hg : m.Relates limits n n' f g g')
    (hgs : m.Relates limits n n' f (choice gs) (choice gs')) :
    m.Relates limits n n' f (choice (g :: gs)) (choice (g' :: gs')) :=
  orElse hg hgs

section

variable {g : Grammar α} {g' : Grammar β}

theorem attempt (hg : m.Relates limits n n' f g g') :
    m.Relates limits n n' (Option.map f) (attempt g) (attempt g') :=
  .orElse (.bind hg fun _ => .pure rfl) (.pure rfl)

theorem optional (text : String) :
    m.Relates limits n n' id (Grammar.optional text) (Grammar.optional text) :=
  .bind (.attempt (.literal text)) fun o => .pure (by cases o <;> rfl)

theorem many (hg : m.Relates limits n n' f g g') :
    m.Relates limits n n' (List.map f) (many g) (many g') := by
  refine .bind (.loop rfl fun items => .bind (.attempt hg) fun o => .pure ?_) fun items =>
    .pure List.map_reverse.symm
  cases o <;> rfl

theorem separated (text : String) (hg : m.Relates limits n n' f g g') :
    m.Relates limits n n' (List.map f) (separated text g) (separated text g') :=
  .bind hg fun _ => .bind (.many (.bind (.literal text) fun _ => hg)) fun _ => .pure rfl

theorem optionalSeparated (text : String) (hg : m.Relates limits n n' f g g') :
    m.Relates limits n n' (List.map f) (optionalSeparated text g) (optionalSeparated text g') :=
  .bind (.attempt (.separated text hg)) fun o => .pure (by cases o <;> rfl)

theorem introduced (text : String) (hg : m.Relates limits n n' f g g') :
    m.Relates limits n n' (Option.map f) (introduced text g) (introduced text g') :=
  .attempt (.bind (.literal text) fun _ => hg)

theorem listed (opening closing : String) (hg : m.Relates limits n n' f g g') :
    m.Relates limits n n' (List.map f) (listed opening closing g) (listed opening closing g') :=
  .bind (.literal _) fun _ => .bind (.optionalSeparated _ hg) fun _ => .bind (.optional _) fun _ =>
    .bind (.literal _) fun _ => .pure rfl

theorem trailing (text : String) (items : List α) :
    m.Relates limits n n' (List.map f) (trailing text items) (trailing text (items.map f)) := by
  cases items with
  | nil => exact .pure rfl
  | cons => exact .bind (.optional text) fun _ => .pure rfl

end

end Relates

/-! Rules -/

section Productions

variable (hr : ∀ r, m.Relates limits n n' (r.relocate m.place) (call r) (call r))

include hr

theorem relates_members {r : Rule} : m.Relates limits n n' (List.map (r.relocate m.place))
    (members (call r)) (members (call r)) :=
  .bind (.literal _) fun _ => .bind (.nested (.optionalSeparated _ (hr r))) fun _ =>
    .bind (.trailing _ _) fun _ => .bind (.literal _) fun _ => .pure rfl

theorem relates_statements :
    m.Relates limits n n' (List.map (Stmt.map m.place)) statements statements :=
  .bind (.optionalSeparated _ (hr .stmt)) fun _ => .trailing _ _

omit hr in
theorem relates_modifiers : m.Relates limits n n' id modifiers modifiers :=
  .bind (.many (.token _)) fun _ => .pure (by simp)

omit hr in
theorem relates_number : m.Relates limits n n' id number number := by
  refine .bind .here fun i => .bind (.token _) fun text => ?_
  rw [id]
  split
  · exact .pure rfl
  · exact .reject rfl

theorem relates_binary (min : Power) :
    m.Relates limits n n' (Expr.map m.place) (Grammar.binary min) (Grammar.binary min) := by
  refine .bind (hr .unary) fun u => .loop ?_ fun left => .bind (.operatorAbove min) fun o => ?_
  · cases u <;> simp [Rule.relocate, Expr.map, Unary.map, Unary.pos]
  · cases o with
    | none => exact .pure rfl
    | some o =>
      refine .bind (hr (.binary _)) fun right => .pure ?_
      cases left <;> simp [Rule.relocate, Expr.map, Expr.pos]

theorem relates_production (r : Rule) :
    m.Relates limits n n' (r.relocate m.place) r.production r.production := by
  cases r with
  | ast =>
    exact .bind .here fun _ => .bind (.many (hr .rootDecl)) fun _ => .bind (.token _) fun _ =>
      .pure rfl
  | rootDecl =>
    refine .bind .here fun _ => .bind relates_modifiers fun _ => .bind ?_ fun _ => .pure rfl
    exact .choice_cons (.bind (hr .classDecl) fun _ => .bind (.optional _) fun _ => .pure rfl) <|
      .choice_cons (.bind (hr .importDecl) fun _ => .bind (.optional _) fun _ => .pure rfl) <|
      .choice_cons (.bind (hr .enumDecl) fun _ => .bind (.optional _) fun _ => .pure rfl) <|
      .choice_cons (.bind (hr .varDecl) fun _ => .bind (.literal _) fun _ => .pure rfl) <|
      .choice_cons (.bind (hr .funcDecl) fun _ => .bind (.optional _) fun _ => .pure rfl)
      .choice_nil
  | importDecl =>
    exact .bind .here fun _ => .bind (.literal _) fun _ => .bind (.attempt (.token _)) fun o =>
      .bind (.token _) fun _ => .pure (by cases o <;> rfl)
  | enumDecl =>
    exact .bind .here fun _ => .bind (.literal _) fun _ => .bind (hr .typeDecl) fun _ =>
      .bind (relates_members hr) fun _ =>
      .pure (by simp [Rule.relocate, EnumDecl.map, EnumMember.mapList_eq])
  | classDecl =>
    exact .bind .here fun _ => .bind (.literal _) fun _ => .bind (hr .typeDecl) fun _ =>
      .bind (relates_members hr) fun _ =>
      .pure (by simp [Rule.relocate, ClassDecl.map, ClassMember.mapList_eq])
  | enumMember =>
    refine .bind .here fun _ => .bind relates_modifiers fun _ => .bind ?_ fun _ => .pure rfl
    exact .choice_cons (.bind (hr .caseDecl) fun _ => .pure rfl) <|
      .choice_cons (.bind (hr .varDecl) fun _ => .pure rfl) <|
      .choice_cons (.bind (hr .funcDecl) fun _ => .pure rfl) <|
      .choice_cons (.bind (hr .classDecl) fun _ => .pure rfl) <|
      .choice_cons (.bind (hr .enumDecl) fun _ => .pure rfl) <|
      .choice_cons (.bind (hr .initialiserDecl) fun _ => .pure rfl) .choice_nil
  | classMember =>
    refine .bind .here fun _ => .bind relates_modifiers fun _ => .bind ?_ fun _ => .pure rfl
    exact .choice_cons (.bind (hr .varDecl) fun _ => .pure rfl) <|
      .choice_cons (.bind (hr .funcDecl) fun _ => .pure rfl) <|
      .choice_cons (.bind (hr .classDecl) fun _ => .pure rfl) <|
      .choice_cons (.bind (hr .enumDecl) fun _ => .pure rfl) <|
      .choice_cons (.bind (hr .initialiserDecl) fun _ => .pure rfl) .choice_nil
  | caseDecl =>
    exact .bind .here fun _ => .bind (.literal _) fun _ => .bind (.token _) fun _ =>
      .bind (.attempt (.bind (.literal _) fun _ => .bind (hr .typeDecl) fun _ =>
        .bind (.literal _) fun _ => .pure rfl)) fun _ => .pure rfl
  | initialiserDecl =>
    exact .bind .here fun _ => .bind (.literal _) fun _ => .bind (.listed _ _ (hr .parameters))
      fun _ => .bind (.optional _) fun _ => .bind (hr .block) fun _ => .pure rfl
  | parameters =>
    exact .bind .here fun _ => .bind (.separated _ (.token _)) fun _ => .bind (.literal _)
      fun _ => .bind (hr .reference) fun _ => .pure (by rw [List.map_id]; rfl)
  | varDecl =>
    exact .bind .here fun _ => .bind (.literal _) fun _ => .bind (.separated _ (hr .varBinding))
      fun _ => .pure rfl
  | varBinding =>
    exact .bind .here fun _ => .bind (.token _) fun _ => .bind (.introduced _ (hr .reference))
      fun _ => .bind (.introduced _ (hr .expr)) fun _ => .pure rfl
  | funcDecl =>
    exact .bind .here fun _ => .bind (.literal _) fun _ => .bind (.token _) fun _ =>
      .bind (.listed _ _ (hr .parameters)) fun _ => .bind (.optional _) fun _ =>
      .bind (.introduced _ (hr .reference)) fun _ => .bind (hr .block) fun _ => .pure rfl
  | typeDecl =>
    exact .bind .here fun _ => .bind (.token _) fun _ => .bind (.attempt (.bind (.literal _)
      fun _ => .bind (.separated _ (hr .typeParam)) fun _ => .bind (.optional _) fun _ =>
      .bind (.literal _) fun _ => .pure rfl)) fun o => .pure (by cases o <;> rfl)
  | typeParam =>
    exact .bind .here fun _ => .bind (.token _) fun _ =>
      .bind (.introduced _ (.separated _ (hr .reference))) fun o => .pure (by cases o <;> rfl)
  | stmt =>
    exact .bind .here fun _ =>
      .choice_cons (.bind (hr .returnStmt) fun _ => .pure rfl) <|
      .choice_cons (.bind (hr .ifStmt) fun _ => .pure rfl) <|
      .choice_cons (.bind (hr .forStmt) fun _ => .pure rfl) <|
      .choice_cons (.bind (hr .switchStmt) fun _ => .pure rfl) <|
      .choice_cons (.bind (hr .block) fun _ => .pure rfl) <|
      .choice_cons (.bind (hr .varDecl) fun _ => .pure rfl) <|
      .choice_cons (.bind (hr .funcDecl) fun _ => .pure rfl) <|
      .choice_cons (.bind (hr .classDecl) fun _ => .pure rfl) <|
      .choice_cons (.bind (hr .enumDecl) fun _ => .pure rfl) <|
      .choice_cons (.bind (hr .expr) fun _ => .pure rfl) .choice_nil
  | block =>
    exact .bind .here fun _ => .bind (.literal _) fun _ => .bind (.nested (relates_statements hr))
      fun _ => .bind (.literal _) fun _ => .pure (by rw [Rule.relocate, Block.map, Stmt.mapList_eq])
  | returnStmt =>
    exact .bind .here fun _ => .bind (.literal _) fun _ => .bind (.attempt (hr .expr)) fun _ =>
      .pure rfl
  | ifStmt =>
    exact .bind .here fun _ => .bind (.literal _) fun _ => .bind (hr .expr) fun _ =>
      .bind (hr .block) fun _ => .bind (.introduced _ (hr .block)) fun _ => .pure (by
        simp [Rule.relocate, IfStmt.map, Block.mapOption_eq])
  | forStmt =>
    exact .bind .here fun _ => .bind (.literal _) fun _ => .bind (hr .reference) fun _ =>
      .bind (.literal _) fun _ => .bind (hr .expr) fun _ => .bind (hr .block) fun _ => .pure rfl
  | switchStmt =>
    exact .bind .here fun _ => .bind (.literal _) fun _ => .bind (hr .expr) fun _ =>
      .bind (.literal _) fun _ => .bind (.many (hr .caseStmt)) fun _ => .bind (.literal _) fun _ =>
      .pure (by simp [Rule.relocate, SwitchStmt.map, CaseStmt.mapList_eq])
  | caseStmt =>
    refine .bind .here fun _ => .bind
      (?_ : m.Relates limits n n' (Option.map (CaseSelect.map m.place)) _ _) fun _ =>
      .bind (.literal _) fun _ => .bind (relates_statements hr) fun _ => .pure (by
        rw [Rule.relocate, CaseStmt.map, Stmt.mapList_eq])
    exact .choice_cons (.bind (.literal _) fun _ => .pure rfl) <|
      .choice_cons (.bind (.literal _) fun _ => .bind (hr .caseSelect) fun _ => .pure rfl)
      .choice_nil
  | caseSelect =>
    exact .bind .here fun _ => .choice_cons (.bind (hr .enumCase) fun _ => .pure rfl) <|
      .choice_cons (.bind (hr .expr) fun _ => .pure rfl) .choice_nil
  | enumCase =>
    exact .bind .here fun _ => .bind (.literal _) fun _ => .bind (.token _) fun _ =>
      .bind (.attempt (.bind (.literal _) fun _ => .bind (.token _) fun _ =>
        .bind (.literal _) fun _ => .pure rfl)) fun o => .pure (by cases o <;> rfl)
  | expr => exact .nested (hr (.binary .lowest))
  | binary min => exact relates_binary hr min
  | unary =>
    refine .choice_cons (.bind .here fun _ => .bind (.expect _) fun _ => .bind (.nested (hr .unary))
      fun _ => .pure rfl) <| .choice_cons (.bind (hr .terminal) fun t => .pure ?_) .choice_nil
    cases t <;> simp [Rule.relocate, Unary.map, Terminal.map, Terminal.pos]
  | terminal =>
    exact .bind .here fun _ => .choice_cons (.bind (hr .arrayLiteral) fun _ => .pure rfl) <|
      .choice_cons (.bind (hr .dictOrSetLiteral) fun _ => .pure rfl) <|
      .choice_cons (.bind (.literal _) fun _ => .bind (hr .expr) fun _ => .bind (.literal _)
        fun _ => .pure rfl) <|
      .choice_cons (.bind (hr .literal) fun _ => .pure rfl) <|
      .choice_cons (.bind (hr .reference) fun _ => .pure rfl) .choice_nil
  | literal =>
    refine .bind .here fun _ => .bind (?_ : m.Relates limits n n' id _ _) fun _ => .pure rfl
    exact .choice_cons (.bind relates_number fun _ => .pure rfl) <|
      .choice_cons (.bind (.token _) fun _ => .pure rfl) .choice_nil
  | reference =>
    exact .bind .here fun _ => .bind (.token _) fun _ => .bind (.many (hr .selector)) fun _ =>
      .pure (by simp [Rule.relocate, Reference.map, Selector.mapList_eq])
  | selector =>
    exact .bind .here fun _ =>
      .choice_cons (.bind (.literal _) fun _ => .bind (.token _) fun _ => .pure rfl) <|
      .choice_cons (.bind (.literal _) fun _ => .bind (hr .expr) fun _ => .bind (.literal _)
        fun _ => .pure rfl) <|
      .choice_cons (.bind (hr .call) fun _ => .pure rfl) .choice_nil
  | call =>
    exact .bind .here fun _ => .bind (.listed _ _ (hr .expr)) fun _ =>
      .pure (by simp [Rule.relocate, Call.map, Expr.mapList_eq])
  | arrayLiteral =>
    exact .bind .here fun _ => .bind (.listed _ _ (hr .expr)) fun _ =>
      .pure (by simp [Rule.relocate, ArrayLiteral.map, Expr.mapList_eq])
  | dictOrSetLiteral =>
    exact .bind .here fun _ => .bind (.listed _ _ (hr .entry)) fun _ =>
      .pure (by simp [Rule.relocate, DictOrSetLiteral.map, Entry.mapList_eq])
  | entry =>
    exact .bind .here fun _ => .bind (hr .expr) fun _ => .bind (.introduced _ (hr .expr)) fun _ =>
      .pure (by simp [Rule.relocate, Entry.map, Expr.mapOption_eq])

end Productions

/-- A rule reads the same in both places. -/
theorem run_alike (m : Relocation input input') (n n' : Nat) (r : Rule) {s s' : State}
    (hs : m.Beside s s') : m.Alike (r.relocate m.place) (Rule.run input limits n r s)
      (Rule.run input' limits n' r s') := by
  induction n generalizing n' r s s' with
  | zero => exact .exhaustedLeft
  | succ n ih =>
    cases n' with
    | zero => exact .exhaustedRight
    | succ n' => exact relates_production (fun q t t' ht => ih n' q ht) r s s' hs

end Relocation

end Syntree
