import Syntree.Proofs.Lookahead
import Syntree.Proofs.Words

/-!
What a declaration has asked for when it ends. With one token of lookahead a run looks behind the
token that closes a declaration only once it is read, since no alternative starts with such a token;
so all that is on record there is the semicolon that may follow.
-/

namespace Syntree

open Grammar

/-- The record has not gone past the index `c` unless the cursor has. -/
def State.Held (c : Nat) (s : State) : Prop :=
  s.failure.furthest ≤ c ∨ c < s.cursor

def Lexeme.semicolon : Lexeme := ⟨.punct, ";"⟩

def Lexeme.closingBrace : Lexeme := ⟨.punct, "\x7d"⟩

/-- Rules that no statement is part of. -/
def Rule.plain : Rule → Bool
  | varDecl | varBinding | expr | binary _ | unary | terminal | literal | reference | selector
  | call | arrayLiteral | dictOrSetLiteral | entry => true
  | _ => false

/-- Whether no alternative within a rule starts with the token `l`. -/
def Rule.Spares (l : Lexeme) (r : Rule) : Prop :=
  l = .closingBrace ∨ l = .semicolon ∧ r.plain = true

namespace Grammar

variable {α β : Type}

/-- Whether the text of a grammar shows that what is tried before another alternative reads nothing
at the token `l`. -/
def Avoids (l : Lexeme) : {α : Type} → Grammar α → Prop
  | _, bind g f => g.Avoids l ∧ ∀ u, (f u).Avoids l
  | _, orElse a b => a.Stays l 1 (fun _ => True) ∧ a.Avoids l ∧ b.Avoids l
  | _, loop _ f => ∀ v, (f v).Avoids l
  | _, nested g => g.Avoids l
  | _, observe _ _ _ g => g.Avoids l
  | _, call r => r.Spares l
  | _, _ => True

section Syntax

variable {l : Lexeme} {g : Grammar α}

@[simp] theorem avoids_pure {v : α} : (pure v : Grammar α).Avoids l := trivial

@[simp] theorem avoids_bind {g : Grammar β} {f : β → Grammar α} :
    (g >>= f).Avoids l ↔ g.Avoids l ∧ ∀ u, (f u).Avoids l := .rfl

@[simp] theorem avoids_here : here.Avoids l := trivial

@[simp] theorem avoids_expect {es : List Expectation} : (expect es).Avoids l := trivial

@[simp] theorem avoids_operatorAbove {min : Power} : (operatorAbove min).Avoids l := trivial

@[simp] theorem avoids_reject {e : Fatal} : (reject e : Grammar α).Avoids l := trivial

@[simp] theorem avoids_nested : (nested g).Avoids l ↔ g.Avoids l := .rfl

@[simp] theorem avoids_call {r : Rule} :
    @Avoids l (no_index r.Result) (call r) ↔ r.Spares l := .rfl

@[simp] theorem avoids_loop {v : β} {f : β → Grammar (Option β)} :
    (loop v f).Avoids l ↔ ∀ v, (f v).Avoids l := .rfl

@[simp] theorem avoids_literal {text : String} : (literal text).Avoids l := by
  simp [literal]

@[simp] theorem avoids_token {kind : TokenKind} : (token kind).Avoids l := by
  simp [token]

@[simp] theorem avoids_attempt :
    (attempt g).Avoids l ↔ g.Stays l 1 (fun _ => True) ∧ g.Avoids l := by
  have hq : (fun _ : Option α => True) = fun o => o.elim True fun _ => True := by
    funext o
    cases o <;> rfl
  change (g.Stays l 1 (fun o => o.elim True fun _ => True) ∧ (g.Avoids l ∧ ∀ _, True) ∧ True) ↔ _
  rw [← hq]
  simp

@[simp] theorem avoids_many :
    (many g).Avoids l ↔ g.Stays l 1 (fun _ => True) ∧ g.Avoids l := by
  simp [many]

@[simp] theorem avoids_choice {gs : List (Grammar α)} :
    (choice gs).Avoids l ↔ ∀ g ∈ gs, g.Stays l 1 (fun _ => True) ∧ g.Avoids l := by
  induction gs with
  | nil => exact iff_of_true trivial (List.forall_mem_nil _)
  | cons g gs ih =>
    change (g.Stays l 1 (fun _ => True) ∧ g.Avoids l ∧ (choice gs).Avoids l) ↔ _
    simp [ih, and_assoc]

theorem avoids_trailing {text : String} (h : l.spells text = false) {items : List α} :
    (trailing text items).Avoids l := by
  unfold trailing
  split <;> simp [Grammar.optional, h]

end Syntax

end Grammar

@[simp] theorem avoids_number {l : Lexeme} : number.Avoids l := by
  unfold number
  simp only [avoids_bind, avoids_here, avoids_token, true_and]
  intro _ text
  split <;> simp

theorem avoids_binary {l : Lexeme} {min : Power} (h : ∀ p, (Rule.binary p).Spares l)
    (hu : Rule.unary.Spares l) : (Grammar.binary min).Avoids l := by
  refine ⟨hu, fun u left => ⟨trivial, fun o => ?_⟩⟩
  cases o with
  | none => trivial
  | some o => exact ⟨h _, fun _ => trivial⟩

theorem Rule.Spares.starts {l : Lexeme} {r : Rule} (h : r.Spares l) (hr : r ≠ .ast) :
    r.starts l = false := by
  rcases h with rfl | ⟨rfl, hp⟩
  · cases r <;> first | rfl | exact absurd rfl hr
  · cases r <;> first | rfl | cases hp

theorem Rule.Spares.spells {l : Lexeme} {r : Rule} {text : String} (h : r.Spares l)
    (hb : text ≠ "\x7d") (hs : text ≠ ";") : l.spells text = false := by
  rcases h with rfl | ⟨rfl, -⟩
  · simp [Lexeme.spells, Lexeme.closingBrace, hb.symm]
  · simp [Lexeme.spells, Lexeme.semicolon, hs.symm]

theorem stays_number {l : Lexeme} {room : Nat} (h : l.kind ≠ .number) :
    number.Stays l room fun _ => True := by
  unfold number
  simp [h]

section Productions

open Productions

theorem Rule.production_avoids {l : Lexeme} {r : Rule} (h : r.Spares l) :
    r.production.Avoids l := by
  have hk : l.kind = .punct := by
    rcases h with rfl | ⟨rfl, -⟩ <;> rfl
  have hspells := @h.spells
  have hsemicolon (hr : (!r.plain) = true) : l.spells ";" = false := by
    rcases h with rfl | ⟨-, hp⟩
    · rfl
    · simp [hp] at hr
  -- a rule that no statement is part of is made of such rules
  have hparts {q : Rule} (hq : (!r.plain || q.plain) = true) : q.Spares l := by
    rcases h with hl | ⟨hl, hp⟩
    · exact .inl hl
    · exact .inr ⟨hl, by simpa [hp] using hq⟩
  have hstarts {q : Rule} (hq : (!r.plain || q.plain) = true) (hne : q ≠ .ast) :
      q.starts l = false := (hparts hq).starts hne
  have helim {α : Type} (o : Option α) : (o.elim True fun _ => True) = True := by cases o <;> rfl
  cases r
  case binary min => exact avoids_binary (fun _ => h) h
  all_goals simp [Expectation.met, Op.spelling, hk, hspells, hsemicolon, hparts, hstarts, helim,
    stays_number, avoids_trailing, plain, tries_le_one]

end Productions

namespace Grammar

variable {α β : Type} {input : Array Lexeme} {limits : Limits}
  {rules : (r : Rule) → State → Reply r.Result} {c : Nat}

theorem furthest_expecting_le {s : State} {es : List Expectation} (hc : s.cursor ≤ c)
    (hf : s.failure.furthest ≤ c) : (s.expecting es).failure.furthest ≤ c := by
  unfold State.expecting
  generalize s.failure = f at hf ⊢
  induction es generalizing f with
  | nil => exact hf
  | cons e es ih => exact ih _ (Failure.furthest_record_le hc hf)

theorem held_expecting {s : State} (hs : s.Held c) (es : List Expectation) :
    (s.expecting es).Held c := by
  rcases hs with hf | hc
  · by_cases hc : s.cursor ≤ c
    · exact .inl (furthest_expecting_le hc hf)
    · exact .inr (Nat.lt_of_not_le hc)
  · exact .inr hc

theorem held_step {s : State} (hs : s.Held c) : (step input s).state.Held c := by
  simp only [step]
  split
  · exact hs
  · rcases hs with hf | hc
    · exact .inl hf
    · exact .inr (Nat.lt_succ_of_lt hc)

theorem iterate_held {f : β → State → Reply (Option β)}
    (hf : ∀ v s, s.Held c → (f v s).state.Held c) (n : Nat) (v : β) {s : State} (hs : s.Held c) :
    (iterate f n v s).state.Held c := by
  induction n generalizing v s with
  | zero => exact hs
  | succ n ih =>
    have hround := hf v s hs
    unfold iterate Reply.andThen
    split
    · next o ho =>
      cases o with
      | none => exact hround
      | some u => exact ih u hround
    all_goals exact hround

/-- A run through a grammar that avoids the token at `c` does not look behind it before it has read
it. -/
theorem exec_held (hl : limits.lookahead = some 1)
    (hrefuse : ∀ r s, r.starts (tokenAt input s.cursor) = false →
      (rules r s).Ends (limits.Short s.depth r.tries) s.depth fun o k => o = none ∧ k = s.cursor)
    (hcall : ∀ r s, r.Spares (tokenAt input c) → s.Held c → (rules r s).state.Held c)
    {g : Grammar α} (hg : g.Avoids (tokenAt input c)) {s : State} (hs : s.Held c) :
    (exec input limits rules g s).state.Held c := by
  induction g generalizing s with
  | done | here | peek | fail | reject => exact hs
  | advance => exact held_step hs
  | call r => exact hcall r s hg hs
  | expect es =>
    unfold exec
    split
    · exact held_step hs
    · exact held_expecting hs es
  | operatorAbove min =>
    unfold exec
    split
    · exact hs
    · split
      · exact hs
      · exact held_step hs
  | bind g f ihg ihf =>
    have hfirst := ihg hg.1 hs
    change (exec input limits rules (g >>= f) s).state.Held c
    rw [exec_bind]
    unfold Reply.andThen
    split
    · exact ihf _ (hg.2 _) hfirst
    all_goals exact hfirst
  | orElse a b iha ihb =>
    obtain ⟨hstay, ha, hb⟩ := hg
    have hfirst := iha ha hs
    rw [exec_orElse]
    cases hr : exec input limits rules a s with
    | mk o t =>
      rw [hr] at hfirst
      cases o with
      | ok | fatal | exhausted => exact hfirst
      | mismatch =>
        unfold Reply.orElse
        cases hc : limits.committed s.cursor t.cursor with
        | true => exact hfirst
        | false =>
          refine ihb hb ?_
          rcases hfirst with hf | hlt
          · exact .inl hf
          · -- one token at most is given back, and it is not the one at `c`
            have hle : t.cursor ≤ s.cursor + 1 := (committed_one hl).mp hc
            have hpast : c < t.cursor := hlt
            have hne : c ≠ s.cursor := by
              rintro rfl
              have he : (exec input limits rules a s).Ends _ _ _ := exec_stays hrefuse hstay
              rw [hr] at he
              exact absurd he.2.2 (Nat.ne_of_gt hpast)
            exact .inr (by change c < s.cursor; omega)
  | loop v f ih => exact iterate_held (fun u t ht => ih u (hg u) ht) _ v hs
  | nested g ih =>
    unfold exec
    split
    · exact hs
    · exact ih (s := { s with depth := s.depth + 1 }) hg hs
  | observe level name reading g ih => exact ih hg hs

end Grammar

variable {input : Array Lexeme} {limits : Limits}

theorem Rule.run_held (hl : limits.lookahead = some 1) {c : Nat} (n : Nat) {r : Rule}
    (hr : r.Spares (tokenAt input c)) {s : State} (hs : s.Held c) :
    (Rule.run input limits n r s).state.Held c := by
  induction n generalizing r s with
  | zero => exact hs
  | succ n ih =>
    exact exec_held hl (fun _ _ hq => run_refuses n hq) (fun _ _ hq ht => ih hq ht)
      (production_avoids hr) hs

theorem Grammar.held_of_avoids {α : Type} (hl : limits.lookahead = some 1) {c : Nat} (n : Nat)
    {g : Grammar α} (hg : g.Avoids (tokenAt input c)) {s : State} (hs : s.Held c) :
    (exec input limits (Rule.run input limits n) g s).state.Held c :=
  exec_held hl (fun _ _ hq => Rule.run_refuses n hq) (fun _ _ hq ht => Rule.run_held hl n hq ht)
    hg hs

/-! What closes a declaration -/

section

variable {α β : Type} {n : Nat} {P : Lexeme → Prop} {s t : State}

variable (input limits n P) in
/-- What `g` reads ends with a token as `P` says, and up to there `g` has not looked behind it. -/
def Grammar.Seals (g : Grammar α) : Prop :=
  ∀ s v t, exec input limits (Rule.run input limits n) g s = ⟨.ok v, t⟩ →
    ∃ c, t.cursor = c + 1 ∧ P (tokenAt input c) ∧ (s.Held c → t.failure.furthest ≤ c)

theorem seals_literal (hi : LawfulInput input) (text : String) :
    (literal text).Seals input limits n (· = ⟨Lexical.kindOf text, text⟩) := by
  intro s v t h
  obtain ⟨hs, rfl⟩ := literal_ok.mp h
  refine ⟨s.cursor, rfl, Lexeme.eq_of_spells (hi.lawful _) hs, fun hheld => ?_⟩
  exact hheld.resolve_right (Nat.lt_irrefl _)

theorem seals_token {kind : TokenKind} (hk : kind ≠ .eof) :
    (token kind).Seals input limits n (·.kind = kind) := by
  intro s v t h
  obtain ⟨hs, -, rfl⟩ := (token_ok hk).mp h
  exact ⟨s.cursor, rfl, hs, fun hheld => hheld.resolve_right (Nat.lt_irrefl _)⟩

theorem seals_bind (hl : limits.lookahead = some 1) {g : Grammar β} {f : β → Grammar α}
    (hg : ∀ l, P l → (g >>= f).Avoids l)
    (hf : ∀ u, (∀ l, P l → (f u).Avoids l) → (f u).Seals input limits n P) :
    (g >>= f).Seals input limits n P := by
  intro s v t h
  obtain ⟨u, t₁, hu, h⟩ := bind_ok.mp h
  obtain ⟨c, hc, hP, hsealed⟩ := hf u (fun l hl => (hg l hl).2 u) t₁ v t h
  refine ⟨c, hc, hP, fun hs => hsealed ?_⟩
  have hheld := held_of_avoids hl n (hg _ hP).1 hs
  rwa [hu] at hheld

theorem seals_map {g : Grammar β} (hg : g.Seals input limits n P) (f : β → α) :
    (do return f (← g) : Grammar α).Seals input limits n P := by
  intro s v t h
  obtain ⟨u, t₁, hu, h⟩ := bind_ok.mp h
  obtain ⟨-, rfl⟩ := pure_ok.mp h
  exact hg s u t₁ hu

theorem seals_call {r : Rule} (h : ∀ m, r.production.Seals input limits m P) :
    (call r).Seals input limits n P := by
  intro s v t hr
  obtain ⟨m, hm⟩ := Rule.run_production (by simp) hr
  exact h m s v t hm

theorem seals_brace (hi : LawfulInput input) :
    (literal "\x7d").Seals input limits n (· = .closingBrace) :=
  seals_literal hi "\x7d"

theorem seals_members (hl : limits.lookahead = some 1) (hi : LawfulInput input) {g : Grammar α}
    (hg : ∀ l, l = .closingBrace → (members g).Avoids l) :
    (members g).Seals input limits n (· = .closingBrace) :=
  seals_bind hl hg fun _ h => seals_bind hl h fun _ h => seals_bind hl h fun _ _ =>
    seals_map (seals_brace hi) _

theorem avoids_brace (r : Rule) : ∀ l, l = .closingBrace → r.production.Avoids l :=
  fun _ h => Rule.production_avoids (.inl h)

theorem seals_classDecl (hl : limits.lookahead = some 1) (hi : LawfulInput input) :
    (call .classDecl).Seals input limits n (· = .closingBrace) :=
  seals_call fun _ => seals_bind hl (avoids_brace .classDecl) fun _ h => seals_bind hl h fun _ h =>
    seals_bind hl h fun _ h => seals_map (seals_members hl hi fun l hb => (h l hb).1) _

theorem seals_enumDecl (hl : limits.lookahead = some 1) (hi : LawfulInput input) :
    (call .enumDecl).Seals input limits n (· = .closingBrace) :=
  seals_call fun _ => seals_bind hl (avoids_brace .enumDecl) fun _ h => seals_bind hl h fun _ h =>
    seals_bind hl h fun _ h => seals_map (seals_members hl hi fun l hb => (h l hb).1) _

theorem seals_block (hl : limits.lookahead = some 1) (hi : LawfulInput input) :
    (call .block).Seals input limits n (· = .closingBrace) :=
  seals_call fun _ => seals_bind hl (avoids_brace .block) fun _ h => seals_bind hl h fun _ h =>
    seals_bind hl h fun _ _ => seals_map (seals_brace hi) _

theorem seals_funcDecl (hl : limits.lookahead = some 1) (hi : LawfulInput input) :
    (call .funcDecl).Seals input limits n (· = .closingBrace) :=
  seals_call fun _ => seals_bind hl (avoids_brace .funcDecl) fun _ h => seals_bind hl h fun _ h =>
    seals_bind hl h fun _ h => seals_bind hl h fun _ h => seals_bind hl h fun _ h =>
    seals_bind hl h fun _ _ => seals_map (seals_block hl hi) _

theorem seals_importDecl (hl : limits.lookahead = some 1) :
    (call .importDecl).Seals input limits n (·.kind = .string) := by
  have ha : ∀ l : Lexeme, l.kind = .string → Grammar.importDecl.Avoids l := by
    intro l h
    simp [Grammar.importDecl, Grammar.name, h]
  exact seals_call fun _ => seals_bind hl ha fun _ h => seals_bind hl h fun _ h =>
    seals_bind hl h fun _ _ => seals_map (seals_token (by simp)) _

/-- Variables at the top are closed by a semicolon. -/
theorem seals_rootVar (hl : limits.lookahead = some 1) (hi : LawfulInput input)
    (f : VarDecl Nat → α) :
    (do
      let decl ← call .varDecl
      literal ";"
      return f decl : Grammar α).Seals input limits n (· = .semicolon) :=
  seals_bind hl (fun _ h => ⟨.inr ⟨h, rfl⟩, fun _ => by simp⟩) fun _ _ =>
    seals_map (seals_literal hi ";") _

/-! Declarations at the top -/

/-- All that is on record where the cursor stands is a semicolon. -/
structure State.Settled (s : State) : Prop where
  furthest_le : s.failure.furthest ≤ s.cursor
  asked : ∀ l, s.failure.Asked s.cursor l → l.spells ";" = true

theorem State.held_of_le (hs : s.failure.furthest ≤ s.cursor) (c : Nat) : s.Held c := by
  by_cases hc : c < s.cursor
  · exact .inr hc
  · exact .inl (by omega)

theorem State.Settled.not_asked {l : Lexeme} {i : Nat} (h : s.Settled) (hs : s.cursor ≤ i)
    (hl : l.spells ";" = false) : ¬ s.failure.Asked i l := by
  intro ha
  obtain rfl : s.cursor = i := Nat.le_antisymm hs (ha.1 ▸ h.furthest_le)
  rw [h.asked l ha] at hl
  cases hl

theorem State.settled_start : State.start.Settled where
  furthest_le := Nat.le_refl _
  asked l ha := by
    obtain ⟨-, e, he, -⟩ := ha
    cases he

theorem settled_of_lt (h : s.failure.furthest < s.cursor) : s.Settled :=
  ⟨Nat.le_of_lt h, fun _ ha => absurd ha.1 (Nat.ne_of_lt h)⟩

theorem settles_seals {g : Grammar α} (hg : g.Seals input limits n P) {v : α}
    (hs : s.failure.furthest ≤ s.cursor)
    (h : exec input limits (Rule.run input limits n) g s = ⟨.ok v, t⟩) :
    t.failure.furthest < t.cursor := by
  obtain ⟨c, hc, -, hsealed⟩ := hg s v t h
  have hle := hsealed (s.held_of_le hs c)
  omega

/-- A semicolon that may follow is the only thing asked for behind what it follows. -/
theorem settles_optional {g : Grammar β} (hg : g.Seals input limits n P) {f : β → α} {v : α}
    (hs : s.failure.furthest ≤ s.cursor)
    (h : exec input limits (Rule.run input limits n) (do
      let decl ← g
      let _ ← Grammar.optional ";"
      return f decl) s = ⟨.ok v, t⟩) : t.Settled := by
  obtain ⟨u, t₁, hu, h⟩ := bind_ok.mp h
  obtain ⟨b, t₂, hb, h⟩ := bind_ok.mp h
  obtain ⟨-, rfl⟩ := pure_ok.mp h
  have hlt := settles_seals hg hs hu
  obtain ⟨o, t₃, ho, hb⟩ := bind_ok.mp hb
  obtain ⟨-, rfl⟩ := pure_ok.mp hb
  rcases attempt_ok.mp ho with ⟨_, -, hread⟩ | ⟨-, t₄, hm, -, rfl⟩
  · obtain ⟨-, rfl⟩ := literal_ok.mp hread
    exact settled_of_lt (Nat.lt_succ_of_lt hlt)
  · obtain ⟨-, rfl⟩ := literal_mismatch.mp hm
    refine ⟨furthest_expecting_le (Nat.le_refl _) (Nat.le_of_lt hlt), fun l ha => ?_⟩
    rcases (Failure.asked_expecting (Nat.le_of_lt hlt)).mp ha with ha | ha
    · exact absurd ha.1 (Nat.ne_of_lt hlt)
    · simpa [Expectation.met] using ha

theorem rootAlternative_settles (hl : limits.lookahead = some 1) (hi : LawfulInput input)
    {g : Grammar (Decl Nat)} (hg : g ∈ rootAlternatives) {v : Decl Nat}
    (hs : s.failure.furthest ≤ s.cursor)
    (h : exec input limits (Rule.run input limits n) g s = ⟨.ok v, t⟩) : t.Settled := by
  simp only [rootAlternatives, List.mem_cons, List.not_mem_nil, or_false] at hg
  rcases hg with rfl | rfl | rfl | rfl | rfl
  · exact settles_optional (seals_classDecl hl hi) hs h
  · exact settles_optional (seals_importDecl hl) hs h
  · exact settles_optional (seals_enumDecl hl hi) hs h
  · exact settled_of_lt (settles_seals (seals_rootVar hl hi _) hs h)
  · exact settles_optional (seals_funcDecl hl hi) hs h

end

theorem modifiers_settle {n : Nat} {s t : State} {ms : List Modifier}
    (hl : limits.lookahead = some 1) (hs : s.failure.furthest ≤ s.cursor)
    (h : exec input limits (Rule.run input limits n) modifiers s = ⟨.ok ms, t⟩) :
    t.failure.furthest ≤ t.cursor := by
  have hkind : (tokenAt input t.cursor).kind ≠ .modifier := by
    obtain ⟨vs, t₁, hvs, hp⟩ := bind_ok.mp h
    obtain ⟨-, rfl⟩ := pure_ok.mp hp
    obtain ⟨u, t₂, hu, hm, -⟩ := (many_ok hvs).last
    rw [← hu]
    exact (token_mismatch.mp hm).1
  have havoid : modifiers.Avoids (tokenAt input t.cursor) := by simp [modifiers, hkind]
  have hheld := held_of_avoids hl n havoid (s.held_of_le hs _)
  rw [h] at hheld
  exact hheld.resolve_right (Nat.lt_irrefl _)

/-- A declaration at the top that was read has asked for nothing behind it but a semicolon. -/
theorem Rule.rootDecl_settles {n : Nat} {s t : State} {d : RootDecl Nat}
    (hl : limits.lookahead = some 1) (hi : LawfulInput input)
    (hs : s.failure.furthest ≤ s.cursor)
    (h : Rule.run input limits n .rootDecl s = ⟨.ok d, t⟩) : t.Settled := by
  obtain ⟨m, hm⟩ := Rule.run_production (by simp) h
  obtain ⟨pos, t₁, hpos, hm⟩ := bind_ok.mp hm
  obtain ⟨-, rfl⟩ := here_ok.mp hpos
  obtain ⟨ms, t₂, hms, hm⟩ := bind_ok.mp hm
  obtain ⟨decl, t₃, hdecl, hm⟩ := bind_ok.mp hm
  obtain ⟨-, rfl⟩ := pure_ok.mp hm
  have hmodifiers : t₂.failure.furthest ≤ t₂.cursor := modifiers_settle hl hs hms
  obtain ⟨g, hg, as, hok⟩ := choice_read rootAlternatives_apart hdecl
  exact rootAlternative_settles hl hi hg (furthest_expecting_le (Nat.le_refl _) hmodifiers) hok

end Syntree
