import Syntree.Proofs.Expected
import Syntree.Proofs.Lexemes
import Syntree.Proofs.Session

/-!
What is read again and again, and how often.

A rule, an item of a repetition or of a list, and an alternative that is tried all move the cursor
when they are read. So no loop goes round more often than there are tokens left, and from every
state every part of the grammar ends.
-/

namespace Syntree

namespace Grammar

/-- `h.Part g`: the grammar `h` stands in the text of `g`, whatever is read before it. -/
inductive Part {γ : Type} (h : Grammar γ) : {α : Type} → Grammar α → Prop where
  | self : Part h h
  | first {α β : Type} {g : Grammar β} {f : β → Grammar α} (inside : Part h g) :
      Part h (.bind g f)
  | next {α β : Type} {g : Grammar β} {f : β → Grammar α} (u : β) (inside : Part h (f u)) :
      Part h (.bind g f)
  | tried {α : Type} {a b : Grammar α} (inside : Part h a) : Part h (.orElse a b)
  | otherwise {α : Type} {a b : Grammar α} (inside : Part h b) : Part h (.orElse a b)
  | round {β : Type} {v : β} {f : β → Grammar (Option β)} (u : β) (inside : Part h (f u)) :
      Part h (.loop v f)
  | nested {α : Type} {g : Grammar α} (inside : Part h g) : Part h (.nested g)
  | observe {α : Type} {level : Nat} {name : String} {reading : α → Reading} {g : Grammar α}
      (inside : Part h g) : Part h (.observe level name reading g)

variable {α β γ : Type}

theorem Part.trans {i : Grammar β} {h : Grammar γ} {g : Grammar α} (hi : i.Part h)
    (hg : h.Part g) : i.Part g := by
  induction hg with
  | self => exact hi
  | first _ ih => exact .first ih
  | next u _ ih => exact .next u ih
  | tried _ ih => exact .tried ih
  | otherwise _ ih => exact .otherwise ih
  | round u _ ih => exact .round u ih
  | nested _ ih => exact .nested ih
  | observe _ ih => exact .observe ih

theorem Part.guarded {h : Grammar γ} {g : Grammar α} {k : Nat} (hp : h.Part g) (hg : g.Guarded k)
    (hk : k ≤ 16) : ∃ k ≤ 16, h.Guarded k := by
  induction hp generalizing k with
  | self => exact ⟨k, hk, hg⟩
  | first _ ih => exact ih hg.1 hk
  | next u _ ih =>
    rcases hg.2 u with ⟨-, hu⟩ | hu
    · exact ih hu (Nat.le_refl 16)
    · exact ih hu hk
  | tried _ ih => exact ih hg.1 hk
  | otherwise _ ih => exact ih hg.2 hk
  | round u _ ih => exact ih (hg u).1 hk
  | nested _ ih => exact ih hg hk
  | observe _ ih => exact ih hg hk

/-! What is tried -/

/-- If a grammar begins with a word, what follows the word moves the cursor. -/
def SequelMoves : {α : Type} → Grammar α → Prop
  | _, bind (bind _ _) f => ∀ u v, (f u).Moves v
  | _, _ => True

/-- What comes after the word that an alternative begins with, as in `do return some (← g)`. -/
def TriedMoves : {α : Type} → Grammar α → Prop
  | _, bind g _ => g.SequelMoves
  | _, _ => True

/-- An alternative that is not the last resort moves the cursor when it is read, and so does what
follows its first word. -/
def TriesMove : {α : Type} → Grammar α → Prop
  | _, bind g f => g.TriesMove ∧ ∀ u, (f u).TriesMove
  | _, orElse a b => (∀ v, a.Moves v) ∧ a.TriedMoves ∧ a.TriesMove ∧ b.TriesMove
  | _, loop _ f => ∀ v, (f v).TriesMove
  | _, nested g => g.TriesMove
  | _, observe _ _ _ g => g.TriesMove
  | _, _ => True

theorem Part.triesMove {h : Grammar γ} {g : Grammar α} (hp : h.Part g) (hg : g.TriesMove) :
    h.TriesMove := by
  induction hp with
  | self => exact hg
  | first _ ih => exact ih hg.1
  | next u _ ih => exact ih (hg.2 u)
  | tried _ ih => exact ih hg.2.2.1
  | otherwise _ ih => exact ih hg.2.2.2
  | round u _ ih => exact ih (hg u)
  | nested _ ih => exact ih hg
  | observe _ ih => exact ih hg

section Syntax

variable {g : Grammar α}

@[simp] theorem triesMove_pure {v : α} : (pure v : Grammar α).TriesMove := trivial

@[simp] theorem triesMove_bind {g : Grammar β} {f : β → Grammar α} :
    (g >>= f).TriesMove ↔ g.TriesMove ∧ ∀ u, (f u).TriesMove := .rfl

@[simp] theorem triesMove_here : here.TriesMove := trivial

@[simp] theorem triesMove_expect {es : List Expectation} : (expect es).TriesMove := trivial

@[simp] theorem triesMove_reject {e : Fatal} : (reject e : Grammar α).TriesMove := trivial

@[simp] theorem triesMove_nested : (nested g).TriesMove ↔ g.TriesMove := .rfl

@[simp] theorem triesMove_call {r : Rule} : @TriesMove (no_index r.Result) (call r) := trivial

@[simp] theorem triesMove_literal {text : String} : (literal text).TriesMove := by
  simp [literal]

@[simp] theorem triesMove_token {kind : TokenKind} : (token kind).TriesMove := by
  simp [token]

@[simp] theorem sequelMoves_here : here.SequelMoves := trivial

@[simp] theorem sequelMoves_literal {text : String} : (literal text).SequelMoves := trivial

@[simp] theorem sequelMoves_token {kind : TokenKind} : (token kind).SequelMoves := trivial

@[simp] theorem sequelMoves_call {r : Rule} :
    @SequelMoves (no_index r.Result) (call r) := trivial

@[simp] theorem sequelMoves_call_bind {r : Rule} {f : r.Result → Grammar α} :
    (@Bind.bind Grammar _ (no_index r.Result) α (call r) f).SequelMoves := trivial

@[simp] theorem sequelMoves_literal_bind {text : String} {f : Unit → Grammar α} :
    (literal text >>= f).SequelMoves ↔ ∀ v, (f ()).Moves v :=
  ⟨fun h => h (), fun h _ => h⟩

@[simp] theorem triedMoves_bind {g : Grammar β} {f : β → Grammar α} :
    (g >>= f).TriedMoves ↔ g.SequelMoves := .rfl

@[simp] theorem triesMove_attempt :
    (attempt g).TriesMove ↔ (∀ v, g.Moves v) ∧ g.SequelMoves ∧ g.TriesMove := by
  have hmoves : (∀ o, (g >>= fun v => pure (some v)).Moves o) ↔ ∀ v, g.Moves v := by
    constructor
    · intro h v
      exact (h (some v) v).resolve_right (by simp)
    · exact fun h o u => .inl (h u)
  change ((∀ o, (g >>= fun v => pure (some v)).Moves o) ∧ g.SequelMoves ∧
    (g.TriesMove ∧ ∀ _, True) ∧ True) ↔ _
  rw [hmoves]
  simp

@[simp] theorem triesMove_many :
    (many g).TriesMove ↔ (∀ v, g.Moves v) ∧ g.SequelMoves ∧ g.TriesMove := by
  change ((List α → ((attempt g).TriesMove ∧ ∀ _, True)) ∧ ∀ _, True) ↔ _
  simp

@[simp] theorem triesMove_choice {gs : List (Grammar α)} :
    (choice gs).TriesMove ↔ ∀ g ∈ gs, (∀ v, g.Moves v) ∧ g.TriedMoves ∧ g.TriesMove := by
  induction gs with
  | nil => exact iff_of_true trivial (List.forall_mem_nil _)
  | cons g gs ih =>
    change ((∀ v, g.Moves v) ∧ g.TriedMoves ∧ g.TriesMove ∧ (choice gs).TriesMove) ↔ _
    simp [ih, and_assoc]

@[simp] theorem triesMove_trailing {text : String} {items : List α} :
    (trailing text items).TriesMove := by
  unfold trailing
  split <;> simp [Grammar.optional]

end Syntax

/-- What is read in a list with separators moves the cursor, for behind a separator it does. -/
theorem moves_of_separated {separator : String} {item : Grammar α}
    (h : (Grammar.separated separator item).TriesMove) (v : α) : item.Moves v := by
  have hothers : (many (literal separator >>= fun _ => item)).TriesMove := (h.2 v).1
  exact sequelMoves_literal_bind.mp (triesMove_many.mp hothers).2.1 v

end Grammar

open Grammar

@[simp] theorem sequelMoves_number : number.SequelMoves := trivial

@[simp] theorem triesMove_number : number.TriesMove := by
  unfold number
  simp only [triesMove_bind, triesMove_here, triesMove_token, true_and]
  intro _ text
  split <;> simp

theorem triesMove_binary (min : Power) : (Grammar.binary min).TriesMove := by
  refine ⟨trivial, fun u left => ⟨trivial, fun o => ?_⟩⟩
  cases o with
  | none => trivial
  | some o => exact ⟨trivial, fun _ => trivial⟩

section Productions

open Productions

theorem Rule.production_triesMove (r : Rule) : r.production.TriesMove := by
  cases r
  case binary min => exact triesMove_binary min
  all_goals simp

end Productions

namespace Grammar

variable {α β : Type} {input : Array Lexeme} {limits : Limits} {ts : TokenStream} {k : Nat}

/-- What the rules have to read to read anything: a rule, which is not the one for a whole source,
a number, an item that is repeated or listed, an alternative, and what begins with a word or a
bracket, as members and lists of parameters do. -/
inductive Constituent : {α : Type} → Grammar α → Prop where
  | rule {r : Rule} (part : r ≠ .ast) : Constituent (.call r)
  | number : Constituent number
  | repeated {r : Rule} {α : Type} {item : Grammar α} (inside : (many item).Part r.production) :
      Constituent item
  | separated {r : Rule} {α : Type} {separator : String} {item : Grammar α}
      (inside : (Grammar.separated separator item).Part r.production) : Constituent item
  | optionalSeparated {r : Rule} {α : Type} {separator : String} {item : Grammar α}
      (inside : (Grammar.optionalSeparated separator item).Part r.production) : Constituent item
  | alternative {r : Rule} {α : Type} {gs : List (Grammar α)} {g : Grammar α}
      (inside : (choice gs).Part r.production) (among : g ∈ gs) : Constituent g
  | announced {r : Rule} {α : Type} {text : String} {f : Unit → Grammar α}
      (inside : (Grammar.literal text >>= f).Part r.production) :
      Constituent (Grammar.literal text >>= f)

/-- The rules that may read nothing. They return an empty list then. -/
inductive MayBeEmpty : {α : Type} → Grammar (List α) → Prop where
  | modifiers : MayBeEmpty modifiers
  | statements : MayBeEmpty statements

theorem Part.production_guarded {r : Rule} {g : Grammar α} (h : g.Part r.production) :
    ∃ k ≤ 16, g.Guarded k :=
  h.guarded r.production_guarded (Nat.le_of_lt r.rank_lt)

theorem Part.production_triesMove {r : Rule} {g : Grammar α} (h : g.Part r.production) :
    g.TriesMove :=
  h.triesMove r.production_triesMove

theorem Constituent.guarded {g : Grammar α} (h : g.Constituent) : ∃ k ≤ 16, g.Guarded k := by
  cases h with
  | rule => exact ⟨16, Nat.le_refl 16, Rule.rank_lt _⟩
  | number => exact ⟨16, Nat.le_refl 16, guarded_number⟩
  | announced inside => exact inside.production_guarded
  | repeated inside =>
    obtain ⟨k, hk, hg⟩ := inside.production_guarded
    exact ⟨k, hk, (guarded_many.mp hg).1⟩
  | separated inside =>
    obtain ⟨k, hk, hg⟩ := inside.production_guarded
    exact ⟨k, hk, hg.1⟩
  | optionalSeparated inside =>
    obtain ⟨k, hk, hg⟩ := inside.production_guarded
    exact ⟨k, hk, (guarded_attempt.mp hg.1).1⟩
  | alternative inside among =>
    obtain ⟨k, hk, hg⟩ := inside.production_guarded
    exact ⟨k, hk, guarded_choice.mp hg _ among⟩

theorem Constituent.moves {g : Grammar α} (h : g.Constituent) (v : α) : g.Moves v := by
  cases h with
  | rule part => exact part
  | number => exact moves_number
  | announced => exact fun _ => .inl moves_literal
  | repeated inside => exact (triesMove_many.mp inside.production_triesMove).1 v
  | separated inside => exact moves_of_separated inside.production_triesMove v
  | optionalSeparated inside =>
    have hlist := (triesMove_attempt.mp inside.production_triesMove.1).2.2
    exact moves_of_separated hlist v
  | alternative inside among =>
    exact (triesMove_choice.mp inside.production_triesMove _ among).1 v

theorem run_finishes {g : Grammar α} (hg : g.Guarded k) (hk : k ≤ 16) (s : State) :
    (g.run input limits s).outcome ≠ .exhausted := by
  have hroom : room input s + k ≤ openRules input := by
    unfold room openRules
    omega
  exact exec_finishes (Rule.run_cursor _) (fun _ _ _ _ hr h => Rule.run_moves hr h)
    (fun r s h => Rule.run_finishes _ r s h) hg hroom

theorem run_advances {g : Grammar α} {s t : State} {v : α} (hg : g.Moves v)
    (h : g.run input limits s = ⟨.ok v, t⟩) : Advances input s t :=
  exec_moves (Rule.run_cursor _) (fun _ _ _ _ hr h => Rule.run_moves hr h) hg h

theorem run_cursor (g : Grammar α) (s : State) : s.cursor ≤ (g.run input limits s).state.cursor :=
  exec_cursor (Rule.run_cursor _) g s

theorem MayBeEmpty.guarded {g : Grammar (List α)} (h : g.MayBeEmpty) : ∃ k ≤ 16, g.Guarded k := by
  cases h with
  | modifiers =>
    have hpart : Grammar.modifiers.Part Rule.rootDecl.production := .next (0 : Nat) (.first .self)
    exact hpart.production_guarded
  | statements =>
    have hpart : Grammar.statements.Part Rule.block.production :=
      .next (0 : Nat) (.next () (.first (.nested .self)))
    exact hpart.production_guarded

/-- A repetition that has read an item has moved the cursor. -/
theorem Repeats.moves {g : Grammar α} {vs : List α} {s t : State} {n : Nat}
    (h : Repeats input limits (Rule.run input limits n) g s vs t) (hg : ∀ v, g.Moves v)
    (hne : vs ≠ []) : s.cursor < t.cursor := by
  cases h with
  | stop => exact absurd rfl hne
  | next read rest =>
    have hread :=
      exec_moves (Rule.run_cursor n) (fun _ _ _ _ hr h => Rule.run_moves hr h) (hg _) read
    exact Nat.lt_of_lt_of_le hread.1 rest.cursor_le

theorem moves_statements {v : List (Stmt Nat)} (hv : v ≠ []) : statements.Moves v := by
  intro items
  by_cases hitems : items = []
  · subst hitems
    exact .inr hv.symm
  · refine .inl fun o => ?_
    cases o with
    | none => exact .inr (Ne.symm hitems)
    | some vs => exact .inl (moves_attempt.mpr ⟨vs, rfl, fun _ => .inl Rule.noConfusion⟩)

theorem MayBeEmpty.run_moves {g : Grammar (List α)} (h : g.MayBeEmpty) {s t : State} {v : List α}
    (hv : v ≠ []) (hrun : g.run input limits s = ⟨.ok v, t⟩) : s.cursor < t.cursor := by
  cases h with
  | modifiers =>
    obtain ⟨words, t', hwords, hmodifiers⟩ := bind_ok.mp hrun
    obtain ⟨rfl, rfl⟩ := pure_ok.mp hmodifiers
    refine (many_ok hwords).moves (by simp) ?_
    rintro rfl
    exact hv rfl
  | statements => exact (run_advances (moves_statements hv) hrun).1

end Grammar

/-! Rounds of a loop -/

/-- `Rounds ts limits f n v p r q`: the loop that starts with `v` goes on `n` times, each time with
what the round before has read. The next round ends it, with an error or since it finds nothing. -/
inductive Rounds (ts : TokenStream) (limits : Limits) {β : Type} (f : β → Grammar (Option β)) :
    Nat → β → Point → Except Error β → Point → Prop where
  | last {v : β} {p q : Point} (round : Runs ts limits (f v) p (.ok none) q) :
      Rounds ts limits f 0 v p (.ok v) q
  | failed {v : β} {p q : Point} {e : Error} (round : Runs ts limits (f v) p (.error e) q) :
      Rounds ts limits f 0 v p (.error e) q
  | next {n : Nat} {v u : β} {p q q' : Point} {r : Except Error β}
      (round : Runs ts limits (f v) p (.ok (some u)) q) (rest : Rounds ts limits f n u q r q') :
      Rounds ts limits f (n + 1) v p r q'

section

variable {α β : Type} {ts : TokenStream} {limits : Limits} {f : β → Grammar (Option β)} {n k : Nat}
  {v : β} {p q : Point} {r : Except Error β}

theorem Rounds.runs (h : Rounds ts limits f n v p r q) : Runs ts limits (.loop v f) p r q := by
  induction h with
  | last round => exact .loopEnd round
  | failed round => exact .loopError round
  | next round _ ih => exact .loopNext round ih

end

end Syntree
