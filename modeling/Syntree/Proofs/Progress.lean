import Syntree.Parse
import Syntree.Proofs.Kept

/-!
Every run ends: the cursor never goes back behind the start of a run, every rule moves it, and so
the bounds on loops and on open rules are never reached.
-/

namespace Syntree

/-- Rules that are entered one inside another at the same token have falling ranks. -/
def Rule.rank : Rule → Nat
  | ast => 2
  | rootDecl | enumMember | classMember | selector | terminal => 1
  | unary => 2
  | binary _ => 3
  | expr => 4
  | stmt | caseSelect | entry => 5
  | _ => 0

namespace Grammar

variable {α β : Type} {input : Array Lexeme} {limits : Limits}
  {rules : (r : Rule) → State → Reply r.Result}

/-- A run never leaves the cursor before its start, however it ends. -/
theorem exec_cursor (hr : ∀ r s, s.cursor ≤ (rules r s).state.cursor) (g : Grammar α)
    (s : State) : s.cursor ≤ (exec input limits rules g s).state.cursor :=
  exec_kept (kept_cursor input) hr g s

theorem exec_ok_cursor (hr : ∀ r s, s.cursor ≤ (rules r s).state.cursor) {g : Grammar α}
    {s s' : State} {v : α} (h : exec input limits rules g s = ⟨.ok v, s'⟩) :
    s.cursor ≤ s'.cursor := by
  have hs : s.cursor ≤ (exec input limits rules g s).state.cursor := exec_cursor hr g s
  rwa [h] at hs

/-- Whether the cursor has moved whenever `g` has read `v`, as far as the text of `g` shows. -/
def Moves : {α : Type} → Grammar α → α → Prop
  | _, done u, v => u ≠ v
  | _, bind g f, v => ∀ u, g.Moves u ∨ (f u).Moves v
  | _, expect es, _ => .kind .eof ∉ es
  | _, operatorAbove _, o => o ≠ none
  | _, orElse a b, v => a.Moves v ∧ b.Moves v
  | _, nested g, v => g.Moves v
  | _, observe _ _ _ g, v => g.Moves v
  | _, call r, _ => r ≠ .ast
  | _, fail, _ => True
  | _, reject _, _ => True
  | _, here, _ => False
  | _, peek, _ => False
  | _, advance, _ => False
  | _, loop _ _, _ => False

/-- Each rule that is entered before the cursor has moved ranks below `k`, and each round of a loop
but the last moves the cursor. Every rank is below 16. -/
def Guarded : {α : Type} → Grammar α → Nat → Prop
  | _, bind g f, k => g.Guarded k ∧ ∀ u, g.Moves u ∧ (f u).Guarded 16 ∨ (f u).Guarded k
  | _, orElse a b, k => a.Guarded k ∧ b.Guarded k
  | _, loop _ f, k => ∀ v, (f v).Guarded k ∧ ∀ u, (f v).Moves (some u)
  | _, nested g, k => g.Guarded k
  | _, observe _ _ _ g, k => g.Guarded k
  | _, call r, k => r.rank < k
  | _, _, _ => True

section Syntax

variable {k : Nat} {g : Grammar α}

@[simp] theorem moves_pure {u v : α} : (pure u : Grammar α).Moves v ↔ u ≠ v := .rfl

@[simp] theorem moves_bind {g : Grammar β} {f : β → Grammar α} {v : α} :
    (g >>= f).Moves v ↔ ∀ u, g.Moves u ∨ (f u).Moves v := .rfl

@[simp] theorem moves_expect {es : List Expectation} {l : Lexeme} :
    (expect es).Moves l ↔ .kind .eof ∉ es := .rfl

@[simp] theorem moves_operatorAbove {min : Power} {o : Option (Op × Power)} :
    (operatorAbove min).Moves o ↔ o ≠ none := .rfl

@[simp] theorem moves_nested {v : α} : (nested g).Moves v ↔ g.Moves v := .rfl

-- where the rule is known, its type of results may stand in another form
@[simp] theorem moves_call {r : Rule} {v : r.Result} :
    @Moves (no_index r.Result) (call r) v ↔ r ≠ .ast := .rfl

@[simp] theorem moves_reject {e : Fatal} {v : α} : (reject e : Grammar α).Moves v := trivial

@[simp] theorem not_moves_here {i : Nat} : ¬ here.Moves i := id

@[simp] theorem moves_literal {text : String} {u : Unit} : (literal text).Moves u := by
  simp [literal]

@[simp] theorem moves_token {kind : TokenKind} {v : String} :
    (token kind).Moves v ↔ kind ≠ .eof := by
  simp only [token, moves_bind, moves_expect, moves_pure, List.mem_singleton,
    Expectation.kind.injEq, ne_eq, eq_comm]
  constructor
  · intro h
    exact (h ⟨.eof, v⟩).resolve_right (by simp)
  · exact fun h _ => .inl h

@[simp] theorem moves_attempt {o : Option α} :
    (attempt g).Moves o ↔ ∃ v, o = some v ∧ g.Moves v := by
  cases o with
  | none => exact iff_of_false (fun h => h.2 rfl) (by simp)
  | some v =>
    change ((g >>= fun u => pure (some u)).Moves (some v) ∧ none ≠ some v) ↔ _
    simp only [moves_bind, moves_pure, ne_eq, Option.some.injEq, reduceCtorEq, not_false_eq_true,
      and_true]
    constructor
    · intro h
      exact ⟨v, rfl, (h v).resolve_right (by simp)⟩
    · rintro ⟨v', rfl, hm⟩ u
      by_cases hu : u = v
      · exact .inl (hu ▸ hm)
      · exact .inr hu

@[simp] theorem moves_choice_nil {v : α} : (choice ([] : List (Grammar α))).Moves v := trivial

@[simp] theorem moves_choice_cons {gs : List (Grammar α)} {v : α} :
    (choice (g :: gs)).Moves v ↔ g.Moves v ∧ (choice gs).Moves v := .rfl

@[simp] theorem guarded_pure {u : α} : (pure u : Grammar α).Guarded k := trivial

@[simp] theorem guarded_bind {g : Grammar β} {f : β → Grammar α} :
    (g >>= f).Guarded k ↔
      g.Guarded k ∧ ∀ u, g.Moves u ∧ (f u).Guarded 16 ∨ (f u).Guarded k := .rfl

@[simp] theorem guarded_expect {es : List Expectation} : (expect es).Guarded k := trivial

@[simp] theorem guarded_operatorAbove {min : Power} : (operatorAbove min).Guarded k := trivial

@[simp] theorem guarded_here : here.Guarded k := trivial

@[simp] theorem guarded_reject {e : Fatal} : (reject e : Grammar α).Guarded k := trivial

@[simp] theorem guarded_nested : (nested g).Guarded k ↔ g.Guarded k := .rfl

@[simp] theorem guarded_call {r : Rule} :
    @Guarded (no_index r.Result) (call r) k ↔ r.rank < k := .rfl

@[simp] theorem guarded_loop {v : β} {f : β → Grammar (Option β)} :
    (loop v f).Guarded k ↔ ∀ v, (f v).Guarded k ∧ ∀ u, (f v).Moves (some u) := .rfl

@[simp] theorem guarded_literal {text : String} : (literal text).Guarded k := by
  simp [literal]

@[simp] theorem guarded_token {kind : TokenKind} : (token kind).Guarded k := by
  simp [token]

@[simp] theorem guarded_attempt : (attempt g).Guarded k ↔ g.Guarded k := by
  change ((g >>= fun v => pure (some v)).Guarded k ∧ True) ↔ _
  simp

@[simp] theorem guarded_choice_nil : (choice ([] : List (Grammar α))).Guarded k := trivial

@[simp] theorem guarded_choice_cons {gs : List (Grammar α)} :
    (choice (g :: gs)).Guarded k ↔ g.Guarded k ∧ (choice gs).Guarded k := .rfl

theorem guarded_choice {gs : List (Grammar α)} :
    (choice gs).Guarded k ↔ ∀ g ∈ gs, g.Guarded k := by
  induction gs with
  | nil => exact iff_of_true trivial (List.forall_mem_nil _)
  | cons g gs ih => rw [guarded_choice_cons, List.forall_mem_cons, ih]

@[simp] theorem guarded_many : (many g).Guarded k ↔ g.Guarded k ∧ ∀ v, g.Moves v := by
  simp only [many, guarded_bind, guarded_loop, guarded_attempt, guarded_pure, moves_bind,
    moves_attempt, moves_pure, or_true, and_true, implies_true]
  constructor
  · intro h
    refine ⟨(h []).1, fun v => ?_⟩
    rcases (h []).2 [v] (some v) with ⟨u, hu, hm⟩ | hn
    · cases hu
      exact hm
    · simp at hn
  · rintro ⟨hg, hm⟩ items
    refine ⟨hg, fun vs o => ?_⟩
    cases o with
    | none => simp
    | some v => exact .inl ⟨v, rfl, hm v⟩

@[simp] theorem guarded_trailing {text : String} {items : List α} :
    (trailing text items).Guarded k := by
  unfold trailing
  split <;> simp [Grammar.optional]

end Syntax

theorem tokenAt_kind_eof {i : Nat} (h : input.size ≤ i) : (tokenAt input i).kind = .eof := by
  simp [tokenAt, Array.getElem?_eq_none h, Lexeme.eof]

/-- Moving on within the input. -/
def Advances (input : Array Lexeme) (s s' : State) : Prop :=
  s.cursor < s'.cursor ∧ s.cursor < input.size

theorem step_advances {s s' : State} {l : Lexeme} (hk : (tokenAt input s.cursor).kind ≠ .eof)
    (h : step input s = ⟨.ok l, s'⟩) : Advances input s s' := by
  rw [step_state hk] at h
  cases h
  refine ⟨Nat.lt_succ_self _, Nat.lt_of_not_le ?_⟩
  exact fun hs => hk (tokenAt_kind_eof hs)

theorem met_kind {es : List Expectation} {l : Lexeme} (he : .kind .eof ∉ es)
    (h : es.any (·.met l) = true) : l.kind ≠ .eof := by
  obtain ⟨e, hm, hl⟩ := List.any_eq_true.mp h
  cases e with
  | literal text => exact Lexeme.kind_ne_eof_of_spells hl
  | kind k =>
    intro hk
    simp only [Expectation.met, beq_iff_eq, hk] at hl
    exact he (hl ▸ hm)

theorem exec_moves (hc : ∀ r s, s.cursor ≤ (rules r s).state.cursor)
    (hr : ∀ r s v s', r ≠ .ast → rules r s = ⟨.ok v, s'⟩ → Advances input s s') {g : Grammar α}
    {s s' : State} {v : α} (hg : g.Moves v) (h : exec input limits rules g s = ⟨.ok v, s'⟩) :
    Advances input s s' := by
  induction g generalizing s s' with
  | here | peek | advance | loop => exact absurd hg id
  | fail | reject => cases h
  | done u =>
    cases h
    exact absurd rfl hg
  | call r => exact hr r s v s' hg h
  | bind g f ihg ihf =>
    obtain ⟨u, t, hu, hv⟩ := bind_ok.mp h
    have hst : s.cursor ≤ t.cursor := exec_ok_cursor hc hu
    have hts : t.cursor ≤ s'.cursor := exec_ok_cursor hc hv
    rcases hg u with hm | hm
    · have ha := ihg hm hu
      exact ⟨Nat.lt_of_lt_of_le ha.1 hts, ha.2⟩
    · have ha := ihf u hm hv
      exact ⟨Nat.lt_of_le_of_lt hst ha.1, Nat.lt_of_le_of_lt hst ha.2⟩
  | expect es =>
    obtain ⟨hm, hs⟩ := expect_ok.mp h
    exact step_advances (met_kind hg hm) hs
  | operatorAbove min =>
    rcases operatorAbove_ok h with ⟨rfl, -, -⟩ | ⟨op, p, rfl, hp, -, rfl⟩
    · exact absurd rfl hg
    · have hk : (tokenAt input s.cursor).kind ≠ .eof := by simp [Lexeme.kind_of_binaryOperator hp]
      exact step_advances hk (step_state hk)
  | orElse a b iha ihb =>
    rcases orElse_ok.mp h with h | ⟨t, -, -, h⟩
    · exact iha hg.1 h
    · have ha := ihb hg.2 h
      exact ha
  | nested g ih =>
    obtain ⟨t, ht, rfl⟩ := nested_ok h
    have ha := ih hg ht
    exact ha
  | observe level name reading g ih =>
    cases hg' : exec input limits rules g s with
    | mk o t =>
      change (⟨(exec input limits rules g s).outcome, _⟩ : Reply _) = _ at h
      simp only [hg', Reply.mk.injEq] at h
      obtain ⟨rfl, rfl⟩ := h
      have ha := ih hg hg'
      exact ha

/-- How many rules can still be open at once from a place on. -/
def room (input : Array Lexeme) (s : State) : Nat :=
  16 * (input.size - s.cursor)

theorem room_advances {s s' : State} (h : Advances input s s') :
    room input s' + 16 ≤ room input s := by
  unfold room
  obtain ⟨h₁, h₂⟩ := h
  omega

theorem room_cursor {s s' : State} (h : s.cursor ≤ s'.cursor) : room input s' ≤ room input s := by
  unfold room
  omega

theorem iterate_finishes {f : β → State → Reply (Option β)} {i : Nat}
    (hf : ∀ v t, i ≤ t.cursor → (f v t).outcome ≠ .exhausted)
    (hm : ∀ v t u t', f v t = ⟨.ok (some u), t'⟩ → Advances input t t') (n : Nat) (v : β)
    (s : State) (hs : i ≤ s.cursor) (hn : input.size - s.cursor < n) :
    (iterate f n v s).outcome ≠ .exhausted := by
  induction n generalizing v s with
  | zero => omega
  | succ n ih =>
    have he := hf v s hs
    unfold iterate
    cases hr : f v s with
    | mk o t =>
      rw [hr] at he
      cases o with
      | mismatch | fatal => simp [Reply.andThen]
      | exhausted => exact absurd rfl he
      | ok o =>
        cases o with
        | none => simp [Reply.andThen]
        | some u =>
          have ha := hm v s u t hr
          exact ih u t (Nat.le_trans hs (Nat.le_of_lt ha.1)) (by have := ha.1; have := ha.2; omega)

/-- With room for the rules that are entered first, a grammar runs to an end. -/
theorem exec_finishes {m k : Nat} (hc : ∀ r s, s.cursor ≤ (rules r s).state.cursor)
    (hr : ∀ r s v s', r ≠ .ast → rules r s = ⟨.ok v, s'⟩ → Advances input s s')
    (he : ∀ r s, room input s + r.rank < m → (rules r s).outcome ≠ .exhausted) {g : Grammar α}
    (hg : g.Guarded k) {s : State} (hs : room input s + k ≤ m) :
    (exec input limits rules g s).outcome ≠ .exhausted := by
  induction g generalizing s k with
  | done | here | peek | advance | fail | reject => simp [exec, step]
  | call r =>
    exact he r s (Nat.lt_of_lt_of_le (Nat.add_lt_add_left hg _) hs)
  | expect es =>
    unfold exec
    split <;> simp [step]
  | operatorAbove min =>
    unfold exec
    split
    · simp
    · split <;> simp
  | bind g f ihg ihf =>
    have hfirst := ihg hg.1 hs
    change (exec input limits rules (g >>= f) s).outcome ≠ _
    rw [exec_bind]
    cases hu : exec input limits rules g s with
    | mk o t =>
      rw [hu] at hfirst
      cases o with
      | mismatch | fatal => simp [Reply.andThen]
      | exhausted => exact absurd rfl hfirst
      | ok u =>
        -- behind a token that was read there is room for every rule
        rcases hg.2 u with ⟨hm, hf⟩ | hf
        · have hroom : room input t + 16 ≤ room input s := room_advances (exec_moves hc hr hm hu)
          have hroom' : room input t + 16 ≤ m := by omega
          exact ihf u hf hroom'
        · have hroom : room input t ≤ room input s := room_cursor (exec_ok_cursor hc hu)
          have hroom' : room input t + k ≤ m := by omega
          exact ihf u hf hroom'
  | orElse a b iha ihb =>
    have ha := iha hg.1 hs
    unfold exec Reply.orElse
    split
    · split
      · exact ha
      · exact ihb hg.2 hs
    · exact ha
  | loop v f ih =>
    refine iterate_finishes (i := s.cursor) (fun u t ht => ?_) (fun u t x t' hx => ?_) _ v s
      (Nat.le_refl _) (Nat.lt_succ_self _)
    · have hroom : room input t ≤ room input s := room_cursor ht
      exact ih u (hg u).1 (by omega)
    · exact exec_moves hc hr ((hg u).2 x) hx
  | nested g ih =>
    unfold exec
    split
    · simp
    · exact ih (s := { s with depth := s.depth + 1 }) hg hs
  | observe level name reading g ih =>
    have hi := ih hg hs
    unfold exec
    exact hi

end Grammar

open Grammar

variable {input : Array Lexeme} {limits : Limits}

theorem Rule.rank_lt (r : Rule) : r.rank < 16 := by
  cases r <;> simp [Rule.rank]

/-- The loop over operators moves over an operator in each round. -/
theorem guarded_binary (min : Power) : (Grammar.binary min).Guarded 3 := by
  have hu : Rule.rank .unary < 3 := by decide
  refine ⟨hu, fun u => .inl ⟨nofun, fun left => ⟨⟨trivial, fun o => .inr ?_⟩, ?_⟩⟩⟩
  · cases o with
    | none => trivial
    | some o => exact ⟨Rule.rank_lt (.binary o.2.rightOperand), fun _ => .inr trivial⟩
  · rintro v (_ | o)
    · exact .inr nofun
    · exact .inl nofun

@[simp] theorem moves_number {v : Decimal.Binary64} : number.Moves v := by
  simp [number]

@[simp] theorem guarded_number {k : Nat} : number.Guarded k := by
  unfold number
  simp only [guarded_bind, guarded_here, guarded_token, true_and]
  refine fun _ => .inr fun text => .inr ?_
  split <;> simp

section Productions

open Productions

theorem Rule.production_moves {r : Rule} (hr : r ≠ .ast) (v : r.Result) :
    r.production.Moves v := by
  cases r
  case ast => exact absurd rfl hr
  case binary min => exact fun _ => .inl Rule.noConfusion
  all_goals simp

theorem Rule.production_guarded (r : Rule) : r.production.Guarded r.rank := by
  cases r
  case binary min => exact guarded_binary min
  all_goals simp [rank]

end Productions

theorem Rule.run_cursor (n : Nat) (r : Rule) (s : State) :
    s.cursor ≤ (Rule.run input limits n r s).state.cursor :=
  Rule.run_kept (kept_cursor input) n r s

theorem Grammar.Repeats.cursor_le {α : Type} {g : Grammar α} {vs : List α} {n : Nat} {s t : State}
    (h : Repeats input limits (Rule.run input limits n) g s vs t) : s.cursor ≤ t.cursor := by
  induction h with
  | stop => exact Nat.le_refl _
  | next read _ ih => exact Nat.le_trans (exec_ok_cursor (Rule.run_cursor n) read) ih

/-- Every rule but the one for a whole source reads at least one token. -/
theorem Rule.run_moves {n : Nat} {r : Rule} {s s' : State} {v : r.Result} (hr : r ≠ .ast)
    (h : Rule.run input limits n r s = ⟨.ok v, s'⟩) : Advances input s s' := by
  induction n generalizing r s s' with
  | zero => cases h
  | succ n ih =>
    exact exec_moves (run_cursor n) (fun _ _ _ _ hq hv => ih hq hv) (production_moves hr v) h

theorem Rule.run_finishes (n : Nat) (r : Rule) (s : State) (hn : room input s + r.rank < n) :
    (Rule.run input limits n r s).outcome ≠ .exhausted := by
  induction n generalizing r s with
  | zero => omega
  | succ n ih =>
    exact exec_finishes (run_cursor n) (fun _ _ _ _ hq hv => run_moves hq hv) ih
      (production_guarded r) (Nat.le_of_lt_succ hn)

/-- The number of rules that may be open at once suffices for every input, rule and state. -/
theorem Rule.run_openRules (r : Rule) (s : State) :
    (Rule.run input limits (openRules input) r s).outcome ≠ .exhausted := by
  apply run_finishes
  have hk := r.rank_lt
  unfold room openRules
  omega

namespace TokenStream

/-- The run that reads a whole source. -/
def reply (ts : TokenStream) : Reply (Ast Nat) :=
  (Grammar.call .ast).run ts.lexemes .standard .start

theorem tree_eq (ts : TokenStream) :
    ts.tree = (ts.result ts.reply.outcome ts.reply.state.failure).map (·.map ts.position) := by
  simp only [tree, indexedTree, reply]

theorem reply_eq (ts : TokenStream) :
    ts.reply = Rule.run ts.lexemes .standard (openRules ts.lexemes) .ast .start := by
  unfold reply Grammar.run
  exact exec_call .ast .start

theorem reply_ne_exhausted (ts : TokenStream) : ts.reply.outcome ≠ .exhausted := by
  rw [reply_eq]
  exact Rule.run_openRules .ast .start

theorem exists_last (ts : TokenStream) :
    ∃ front last, ts.tokens.toList = front ++ [last] ∧ last.kind = .eof := by
  have h := ts.closed
  rw [List.getLast?_map, Option.map_eq_some_iff] at h
  obtain ⟨last, hlast, hk⟩ := h
  obtain ⟨front, htokens⟩ := List.getLast?_eq_some_iff.mp hlast
  exact ⟨front, last, htokens, hk⟩

theorem size_pos (ts : TokenStream) : 0 < ts.tokens.size := by
  obtain ⟨front, last, h, -⟩ := ts.exists_last
  simp [← Array.length_toList, h]

theorem lexeme_of_getElem? {ts : TokenStream} {i : Nat} {t : Token} (h : ts.tokens[i]? = some t) :
    ts.lexeme i = t.toLexeme := by
  simp [lexeme, lexemes, Grammar.tokenAt, h]

theorem kind_last (ts : TokenStream) : (ts.lexeme (ts.tokens.size - 1)).kind = .eof := by
  obtain ⟨front, last, h, hk⟩ := ts.exists_last
  have hlast : ts.tokens[ts.tokens.size - 1]? = some last := by
    rw [← Array.getElem?_toList, ← Array.length_toList, h]
    simp
  rw [lexeme_of_getElem? hlast, hk]

/-- A mismatch is reported at a token of the input. -/
theorem furthest_lt (ts : TokenStream) :
    ts.reply.state.failure.furthest < ts.tokens.size := by
  have hsize : ts.lexemes.size = ts.tokens.size := Array.size_map
  have hend : (Grammar.tokenAt ts.lexemes (ts.lexemes.size - 1)).kind = .eof :=
    hsize ▸ ts.kind_last
  have hpos : 0 < ts.lexemes.size := hsize ▸ ts.size_pos
  rw [reply_eq, ← hsize]
  exact (Rule.run_kept (kept_inside hend) _ .ast .start ⟨hpos, hpos⟩).2

/-- A tree is what the run has read, each token index with its place in the source. -/
theorem tree_ok {ts : TokenStream} {a : Ast Position} (h : ts.tree = .ok a) :
    ∃ b s, ts.reply = ⟨.ok b, s⟩ ∧ a = b.map ts.position := by
  rw [tree_eq] at h
  cases hr : ts.reply with
  | mk o s =>
    rw [hr] at h
    cases o with
    | ok b =>
      cases h
      exact ⟨b, s, rfl, rfl⟩
    | mismatch | fatal | exhausted => cases h

end TokenStream

end Syntree
