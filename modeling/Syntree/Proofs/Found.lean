import Syntree.Proofs.Follow

/-!
That a phrase is found: where its tokens stand before something that halts it, it is read up to
there. Here for the ways in which phrases are put together; the rules come after.
-/

namespace Syntree

namespace Grammar

variable {α β : Type} {input : Array Lexeme} {limits : Limits} {room : Nat}
  {rules : (r : Rule) → State → Reply r.Result} {i j k : Nat}

/-- From index `i` the grammar fails, with the cursor at index `k`. -/
def Stops (input : Array Lexeme) (limits : Limits) (room : Nat)
    (rules : (r : Rule) → State → Reply r.Result) (g : Grammar α) (i k : Nat) : Prop :=
  ∀ s : State, s.cursor = i → (exec input limits rules g s).Ends (limits.Short s.depth room) s.depth
    fun o l => o = none ∧ l = k

theorem Stops.fails {g : Grammar α} (h : Stops input limits room rules g i i) :
    Fails input limits room rules g i := by
  intro s hs
  refine (h s hs).mono id ?_
  rintro o k ⟨ho, rfl⟩
  exact ⟨ho, committed_self k⟩

/-- With one token of lookahead, what has read one token and then fails is given up. -/
theorem Stops.fails_second (hl : limits.lookahead = some 1) {g : Grammar α}
    (h : Stops input limits room rules g i (i + 1)) : Fails input limits room rules g i := by
  intro s hs
  refine (h s hs).mono id ?_
  rintro o k ⟨ho, rfl⟩
  exact ⟨ho, (committed_one hl).mpr (Nat.le_refl _)⟩

theorem stops_expect {es : List Expectation} (h : es.any (·.met (tokenAt input i)) = false) :
    Stops input limits room rules (expect es) i i := by
  rintro s rfl
  rw [expect_mismatch.mpr ⟨h, rfl⟩]
  exact ⟨rfl, rfl, rfl⟩

theorem stops_literal {text : String} (h : (tokenAt input i).spells text = false) :
    Stops input limits room rules (literal text) i i := by
  rintro s rfl
  rw [literal_mismatch.mpr ⟨h, rfl⟩]
  exact ⟨rfl, rfl, rfl⟩

theorem stops_token {kind : TokenKind} (h : (tokenAt input i).kind ≠ kind) :
    Stops input limits room rules (token kind) i i := by
  rintro s rfl
  rw [token_mismatch.mpr ⟨h, rfl⟩]
  exact ⟨rfl, rfl, rfl⟩

/-- One construct is enough to find that a rule does not start here. -/
theorem stops_call (n : Nat) {r : Rule} (h : r.starts (tokenAt input i) = false) :
    Stops input limits (room + 1) (Rule.run input limits n) (call r) i i := by
  rintro s rfl
  refine (Rule.run_refuses n h).mono (fun hs => hs.mono ?_) fun _ _ h => h
  exact Nat.le_trans r.tries_le_one (Nat.le_add_left 1 room)

theorem fails_call (n : Nat) {r : Rule} (h : r.starts (tokenAt input i) = false) :
    Fails input limits (room + 1) (Rule.run input limits n) (call r) i :=
  (stops_call n h).fails

theorem stops_bind {g : Grammar β} {f : β → Grammar α} (h : Stops input limits room rules g i k) :
    Stops input limits room rules (g >>= f) i k := by
  intro s hs
  exact (h s hs).andThen (fun _ h => ⟨rfl, h.2⟩) (fun _ _ _ h => absurd h.1 (by simp))

theorem stops_after {g : Grammar β} {f : β → Grammar α} {u : β}
    (hg : Reads input limits room rules g i u j) (hf : Stops input limits room rules (f u) j k) :
    Stops input limits room rules (g >>= f) i k := by
  intro s hs
  refine (hg s hs).andThen (fun _ h => absurd h.1 (by simp)) ?_
  rintro w t hd ⟨hw, ht⟩
  cases hw
  exact .at_depth hd (hf t ht)

theorem stops_choice {gs : List (Grammar α)} (h : ∀ g ∈ gs, Stops input limits room rules g i i) :
    Stops input limits room rules (choice gs) i i := by
  induction gs with
  | nil =>
    rintro s rfl
    exact ⟨rfl, rfl, rfl⟩
  | cons g gs ih =>
    rintro s rfl
    refine (h g (by simp) s rfl).orElse (fun _ _ h => absurd h.1 (by simp)) (fun _ h _ => h) ?_
    intro t _ _ _ ht hd
    exact .at_depth hd (ih (fun g' hg' => h g' (by simp [hg'])) t ht)

theorem reads_expect {es : List Expectation} (h : es.any (·.met (tokenAt input i)) = true)
    (hk : (tokenAt input i).kind ≠ .eof) :
    Reads input limits room rules (expect es) i (tokenAt input i) (i + 1) := by
  rintro s rfl
  rw [expect_ok.mpr ⟨h, step_state hk⟩]
  exact ⟨rfl, rfl, rfl⟩

theorem reads_eof (h : (tokenAt input i).kind = .eof) :
    Reads input limits room rules (token .eof) i (tokenAt input i).value i := by
  rintro s rfl
  have he : exec input limits rules (expect [.kind .eof]) s =
      ⟨.ok (tokenAt input s.cursor), s⟩ := by
    rw [expect_ok]
    simp [Expectation.met, step, h]
  rw [token, exec_bind, he]
  exact ⟨rfl, rfl, rfl⟩

theorem reads_choice_head {g : Grammar α} {gs : List (Grammar α)} {v : α}
    (h : Reads input limits room rules g i v j) :
    Reads input limits room rules (choice (g :: gs)) i v j :=
  reads_orElse_left h

theorem reads_choice_tail {g : Grammar α} {gs : List (Grammar α)} {v : α}
    (hg : Fails input limits room rules g i) (h : Reads input limits room rules (choice gs) i v j) :
    Reads input limits room rules (choice (g :: gs)) i v j :=
  reads_orElse_right hg h

end Grammar

open Grammar

variable {limits₀ limits : Limits} {room : Nat} {input : Array Lexeme} {p : Phrase} {i j k n : Nat}

/-- A phrase that the current token cannot start reads nothing there. -/
theorem stops_phrase (n : Nat) (hn : p.nullable = false)
    (hs : p.starts (tokenAt input i) = false) :
    Stops input limits (room + 1) (Rule.run input limits n) p.grammar i i := by
  induction p with
  | flag | separator | optional | star | body | modifiers => cases hn
  | rule r => exact stops_call n hs
  | literal text => exact stops_literal hs
  | token kind => exact stops_token (by simpa [Phrase.starts] using hs)
  | after text p | between text _ p | listed text _ p => exact stops_bind (stops_literal hs)
  | separated text p ih =>
    simp only [Phrase.starts, Bool.or_eq_false_iff] at hs
    exact stops_bind (ih hn hs.1)
  | typeParameters => exact stops_bind (stops_literal hs)
  | rootKind | classKind =>
    simp only [Phrase.starts, Bool.or_eq_false_iff] at hs
    apply stops_choice
    intro g hg
    simp only [rootAlternatives, classAlternatives, List.mem_cons, List.not_mem_nil,
      or_false] at hg
    rcases hg with rfl | rfl | rfl | rfl | rfl
    all_goals exact stops_bind (stops_call n (by simp [Rule.starts, hs]))
  | enumKind =>
    simp only [Phrase.starts, Bool.or_eq_false_iff] at hs
    apply stops_choice
    intro g hg
    simp only [enumAlternatives, List.mem_cons, List.not_mem_nil, or_false] at hg
    rcases hg with rfl | rfl | rfl | rfl | rfl | rfl
    all_goals exact stops_bind (stops_call n (by simp [Rule.starts, hs]))
  | caseHead =>
    simp only [Phrase.starts, Bool.or_eq_false_iff] at hs
    apply stops_choice
    intro g hg
    simp only [List.mem_cons, List.not_mem_nil, or_false] at hg
    rcases hg with rfl | rfl
    · exact stops_bind (stops_literal hs.1)
    · exact stops_bind (stops_literal hs.2)

theorem fails_phrase (hl : limits.lookahead = some 1) (n : Nat)
    (h : p.Refuses (tokenAt input i) (tokenAt input (i + 1))) :
    Fails input limits (room + 1) (Rule.run input limits n) p.grammar i := by
  cases p with
  | after text p =>
    cases ht : (tokenAt input i).spells text with
    | false => exact (stops_bind (stops_literal ht)).fails
    | true =>
      exact (stops_after (reads_literal ht) (stops_phrase n (h ht).1 (h ht).2)).fails_second hl
  | _ => exact (stops_phrase n h.1 h.2).fails

/-- From the value `e` and index `j`, the loop over binary operators ends with `u` at index `k`. -/
def Climbs (limits : Limits) (room : Nat) (input : Array Lexeme) (min : Power) (e : Expr Nat)
    (j : Nat) (u : Expr Nat) (k : Nat) : Prop :=
  ∀ n m (s : State), s.cursor = j →
    (iterate (fun left t => exec input limits (Rule.run input limits n) (operation min left) t)
      m e s).Ends (limits.Short s.depth (room + 1)) s.depth fun o l => o = some u ∧ l = k

/-- What reading an expression has found so far can be gone on from, unless an operator follows that
its right end would have taken. -/
def Rule.Operands (limits : Limits) (room : Nat) (input : Array Lexeme) :
    (r : Rule) → Nat → r.Result → Nat → Prop
  | .binary min, i, e, j => (∀ q : Power, q.rank ≤ min.rank → e.leaves q) ∧
    ((tokenAt input j).startsSelector = false →
      (∀ op q, (tokenAt input j).binaryOperator? = some (op, q) → e.leaves q) →
      ∀ u k, Climbs limits room input min e j u k →
        ∀ n, Reads input limits (room + 1) (Rule.run input limits n) (Grammar.call (.binary min))
          i u k)
  | _, _, _, _ => True

/-- That a phrase is read from index `i` to index `j`, provided that it halts there; for a phrase
whose parts the rules read one by one, that each part is. It opens at most `room` constructs at a
time, and one more to find that something is absent. -/
def Phrase.Found (limits : Limits) (room : Nat) (input : Array Lexeme) :
    (p : Phrase) → Nat → p.Result → Nat → Prop
  | rule r, i, v, j =>
    (r.halts v (tokenAt input j) (tokenAt input (j + 1)) = true →
      ∀ n, Reads input limits (room + 1) (Rule.run input limits n) (call r) i v j) ∧
    r.Operands limits room input i v j
  | after text p, i, v, j =>
    (tokenAt input i).spells text = true ∧ p.Found limits room input (i + 1) v j
  | between opening closing p, i, v, j => (tokenAt input i).spells opening = true ∧
    ∃ k, p.Found limits room input (i + 1) v k ∧ (tokenAt input k).spells closing = true ∧ j = k + 1
  | star p, i, vs, j => (star p).Halts vs (tokenAt input j) (tokenAt input (j + 1)) →
    ∀ n, ReadsAll input limits (room + 1) (Rule.run input limits n) p.grammar i vs j
  | body p, i, vs, j => (body p).Halts vs (tokenAt input j) (tokenAt input (j + 1)) →
    ∃ k, ∀ n, Reads input limits (room + 1) (Rule.run input limits n)
        (optionalSeparated ";" p.grammar) i vs k ∧
      Reads input limits (room + 1) (Rule.run input limits n) (trailing ";" vs) k vs j
  | modifiers, i, ms, j => (tokenAt input j).kind ≠ .modifier →
    ∀ n, ReadsAll input limits (room + 1) (Rule.run input limits n) (Grammar.token .modifier) i
      (ms.map Modifier.spelling) j
  | p, i, v, j => p.Halts v (tokenAt input j) (tokenAt input (j + 1)) →
    ∀ n, Reads input limits (room + 1) (Rule.run input limits n) p.grammar i v j

theorem Modifier.among_spelling (ms : List Modifier) :
    Modifier.among (ms.map Modifier.spelling) = ms := by
  induction ms with
  | nil => rfl
  | cons m ms ih =>
    have hm : Modifier.ofSpelling? m.spelling = some m := by cases m <;> rfl
    rw [List.map_cons, Modifier.among, List.filterMap_cons_some hm]
    exact congrArg _ ih

theorem Phrase.Found.reads (hi : LawfulInput input) {v : p.Result}
    (h : p.Found limits room input i v j)
    (hh : p.Halts v (tokenAt input j) (tokenAt input (j + 1))) (n : Nat) :
    Reads input limits (room + 1) (Rule.run input limits n) p.grammar i v j := by
  induction p generalizing i j with
  | rule r => exact h.1 hh n
  | after text p ih => exact reads_bind (reads_literal h.1) (ih h.2 hh)
  | between opening closing p ih =>
    obtain ⟨ho, k, hp, hc, rfl⟩ := h
    exact reads_bind (reads_literal ho)
      (reads_bind (ih hp (hh _ _ (hi.lawful k) hc))
        (reads_bind (reads_literal hc) (reads_pure _ _)))
  | star p => exact reads_many (h hh n)
  | body p =>
    obtain ⟨k, hk⟩ := h hh
    exact reads_bind (hk n).1 (hk n).2
  | modifiers =>
    have hm : Reads input limits (room + 1) (Rule.run input limits n) Grammar.modifiers i
        (Modifier.among (v.map Modifier.spelling)) j :=
      reads_bind (reads_many (h hh n)) (reads_pure _ _)
    rw [Modifier.among_spelling] at hm
    exact hm
  | _ => exact h hh n

section Combinations

variable {text : String} {vs : List p.Result}

theorem reads_optional_absent {rules : (r : Rule) → State → Reply r.Result}
    (h : (tokenAt input i).spells text = false) :
    Reads input limits (room + 1) rules (Grammar.optional text) i false i :=
  reads_bind (reads_attempt_none (stops_literal h).fails) (reads_pure _ _)

theorem reads_optional_present {rules : (r : Rule) → State → Reply r.Result}
    (h : (tokenAt input i).spells text = true) :
    Reads input limits (room + 1) rules (Grammar.optional text) i true (i + 1) :=
  reads_bind (reads_attempt_some (reads_literal h)) (reads_pure _ _)

theorem found_optionalNone (hl : limits.lookahead = some 1) :
    (Phrase.optional p).Found limits room input i none i :=
  fun hh n => reads_attempt_none (fails_phrase hl n hh)

theorem found_optionalSome (hi : LawfulInput input) {v : p.Result}
    (h : p.Found limits room input i v j) :
    (Phrase.optional p).Found limits room input i (some v) j :=
  fun hh n => reads_attempt_some (h.reads hi hh n)

theorem found_modifiersCons {m : Modifier} {ms : List Modifier}
    (found : tokenAt input i = ⟨.modifier, m.spelling⟩)
    (h : Phrase.modifiers.Found limits room input (i + 1) ms j) :
    Phrase.modifiers.Found limits room input i (m :: ms) j := by
  intro hh n
  have hm : Reads input limits (room + 1) (Rule.run input limits n) (Grammar.token .modifier) i
      (tokenAt input i).value (i + 1) := reads_token (by simp) (by simp [found])
  rw [found] at hm
  exact .cons hm (h hh n)

theorem HaltsAll.tail {α : Type} {starts : Lexeme → Bool} {halts : α → Lexeme → Lexeme → Prop}
    {v : α} {vs : List α} {a b : Lexeme} (h : HaltsAll starts halts (v :: vs) a b) :
    HaltsAll starts halts vs a b := by
  cases vs with
  | nil => simp [HaltsAll]
  | cons u vs => exact ⟨h.1, fun u hu => h.2 u (List.mem_cons_of_mem v hu)⟩

theorem Phrase.Refuses.nullable_eq {a b : Lexeme} (h : p.Refuses a b) : p.nullable = false := by
  cases p with
  | after => rfl
  | _ => exact h.1

/-- An item halts where the next one starts, and the last one where the list does. -/
theorem HaltsAll.head {α : Type} {halts : α → Lexeme → Lexeme → Prop} {u : α} {us : List α}
    {w : List Slot} (hi : LawfulInput input) (hn : p.nullable = false)
    (rest : Derives limits₀ input (.star p) j w k vs) (he : vs.length = us.length)
    (h : HaltsAll p.starts halts (u :: us) (tokenAt input k) (tokenAt input (k + 1))) :
    halts u (tokenAt input j) (tokenAt input (j + 1)) := by
  cases rest with
  | starNil =>
    obtain rfl : us = [] := List.length_eq_zero_iff.mp he.symm
    exact h.1 u rfl
  | starCons next _ =>
    cases us with
    | nil => cases he
    | cons u' us => exact h.2 u List.mem_cons_self _ _ (hi.lawful j) (next.starts hn)

theorem found_starCons (hi : LawfulInput input) {v : p.Result} {w : List Slot}
    (rest : Derives limits₀ input (.star p) j w k vs) (hf : p.Found limits room input i v j)
    (hr : (Phrase.star p).Found limits room input j vs k) :
    (Phrase.star p).Found limits room input i (v :: vs) k := by
  rintro ⟨hstop, hh⟩ n
  have hv : p.Halts v (tokenAt input j) (tokenAt input (j + 1)) :=
    hh.head hi hstop.nullable_eq rest rfl
  exact .cons (hf.reads hi hv n) (hr ⟨hstop, hh.tail⟩ n)

theorem found_separated (hi : LawfulInput input) {v : p.Result} {w : List Slot}
    (rest : Derives limits₀ input (.star (.after text p)) j w k vs)
    (hf : p.Found limits room input i v j)
    (hr : (Phrase.star (.after text p)).Found limits room input j vs k) :
    (Phrase.separated text p).Found limits room input i (v :: vs) k := by
  rintro ⟨hstop, hh⟩ n
  have hv : p.Halts v (tokenAt input j) (tokenAt input (j + 1)) :=
    hh.head (p := .after text p) hi rfl rest rfl
  exact reads_bind (hf.reads hi hv n)
    (reads_bind (reads_many (hr ⟨hstop, hh.tail⟩ n)) (reads_pure _ _))

/-- The separator that may follow the items, and the token behind it. -/
theorem separator_cases {b : Bool} {w : List Slot}
    (h : Derives limits₀ input (.separator text) j w k b) :
    (b = true ∧ tokenAt input j = ⟨.punct, text⟩ ∧ k = j + 1) ∨ (b = false ∧ k = j) := by
  cases h with
  | separatorPresent found => exact .inl ⟨rfl, found, rfl⟩
  | separatorAbsent => exact .inr ⟨rfl, rfl⟩

theorem found_separator {b : Bool} {w : List Slot}
    (h : Derives limits₀ input (.separator text) j w k b) :
    (Phrase.separator text).Found limits room input j b k := by
  intro hh n
  rcases separator_cases h with ⟨rfl, hf, rfl⟩ | ⟨rfl, rfl⟩
  · exact reads_optional_present (by simp [hf, Lexeme.spells])
  · exact reads_optional_absent hh

theorem found_listed (hi : LawfulInput input) {opening closing : String}
    {os : Option (List p.Result)} {b : Bool} {w : List Slot} {l : Nat}
    (opened : (tokenAt input i).spells opening = true)
    (items : (Phrase.optional (.separated "," p)).Found limits room input (i + 1) os k)
    (last : Derives limits₀ input (.separator ",") k w l b)
    (closed : (tokenAt input l).spells closing = true) :
    (Phrase.listed opening closing p).Found limits room input i (os.getD []) (l + 1) := by
  rintro ⟨hn, hne, hh⟩ n
  have hcomma : (tokenAt input l).spells "," = false := by
    cases hc : (tokenAt input l).spells "," with
    | false => rfl
    | true => exact absurd (Lexeme.spells_unique closed hc) hne
  -- what follows the items: a comma and then the closing bracket, or the bracket at once
  have hk : (tokenAt input k).spells "," = true ∨ (tokenAt input k).spells closing = true := by
    rcases separator_cases last with ⟨-, hf, -⟩ | ⟨-, rfl⟩
    · exact .inl (by simp [hf, Lexeme.spells])
    · exact .inr closed
  have hitems : (Phrase.optional (.separated "," p)).Halts os (tokenAt input k)
      (tokenAt input (k + 1)) := by
    cases os with
    | none => exact ⟨hn, by simp [Phrase.starts, (hh _ (hi.lawful k) hk).1, hn]⟩
    | some vs =>
      refine ⟨fun hc => ⟨hn, ?_⟩, fun v _ => (hh _ (hi.lawful k) hk).2 v _,
        fun v _ a b ha hs => (hh a ha (.inl hs)).2 v b⟩
      rcases separator_cases last with ⟨-, -, rfl⟩ | ⟨-, rfl⟩
      · exact (hh _ (hi.lawful _) (.inr closed)).1
      · rw [hcomma] at hc
        cases hc
  exact reads_bind (reads_literal opened) (reads_bind (reads_bind (items hitems n) (reads_pure _ _))
    (reads_bind (found_separator last hcomma n)
      (reads_bind (reads_literal closed) (reads_pure _ _))))

theorem found_bodyEmpty : (Phrase.body p).Found limits room input i [] i := by
  rintro ⟨hn, hs, -⟩
  exact ⟨i, fun n => ⟨reads_bind (reads_attempt_none (stops_bind (stops_phrase n hn hs)).fails)
    (reads_pure _ _), reads_pure _ _⟩⟩

theorem found_body (hi : LawfulInput input) {b : Bool} {w u : List Slot}
    (derived : Derives limits₀ input (.separated ";" p) i u j vs)
    (items : (Phrase.separated ";" p).Found limits room input i vs j)
    (last : Derives limits₀ input (.separator ";") j w k b) :
    (Phrase.body p).Found limits room input i vs k := by
  rintro ⟨hn, hs, hsemi, hend, hnext⟩
  have hitems : (Phrase.separated ";" p).Halts vs (tokenAt input j) (tokenAt input (j + 1)) := by
    refine ⟨fun hc => ⟨hn, ?_⟩, fun v _ => ?_, fun v _ => hnext v⟩
    · rcases separator_cases last with ⟨-, -, rfl⟩ | ⟨-, rfl⟩
      · exact hs
      · rw [hsemi] at hc
        cases hc
    · rcases separator_cases last with ⟨-, hf, -⟩ | ⟨-, rfl⟩
      · exact hnext v _ _ (hi.lawful j) (by simp [hf, Lexeme.spells])
      · exact hend v
  refine ⟨j, fun n => ⟨reads_bind (reads_attempt_some (items hitems n)) (reads_pure _ _), ?_⟩⟩
  cases derived with
  | separated first rest =>
    exact reads_bind (found_separator last hsemi n) (reads_pure _ _)

end Combinations

/-! Rules -/

theorem reads_rule {r : Rule} {v : r.Result}
    (h : ∀ n, Reads input limits (room + 1) (Rule.run input limits n) r.production i v j)
    (n : Nat) :
    Reads input limits (room + 1) (Rule.run input limits n) (call r) i v j := by
  intro s hs
  cases n with
  | zero => trivial
  | succ n => exact h n s hs

theorem stops_rule {r : Rule}
    (h : ∀ n, Stops input limits (room + 1) (Rule.run input limits n) r.production i k) (n : Nat) :
    Stops input limits (room + 1) (Rule.run input limits n) (call r) i k := by
  intro s hs
  cases n with
  | zero => trivial
  | succ n => exact h n s hs

theorem LawfulInput.spelt (hi : LawfulInput input) {text : String}
    (h : (tokenAt input i).spells text = true) :
    tokenAt input i = ⟨Lexical.kindOf text, text⟩ :=
  Lexeme.eq_of_spells (hi.lawful i) h

/-- An alternative that the current token cannot start is passed over. -/
theorem reads_skip {α : Type} {r : Rule} {f : r.Result → Grammar α} {gs : List (Grammar α)} {v : α}
    {n : Nat} {a : Lexeme} (ha : tokenAt input i = a) (hs : r.starts a = false)
    (h : Reads input limits (room + 1) (Rule.run input limits n) (choice gs) i v j) :
    Reads input limits (room + 1) (Rule.run input limits n) (choice ((call r >>= f) :: gs))
      i v j := by
  subst ha
  exact reads_choice_tail (fails_bind (fails_call n hs)) h

/-- A token that starts one thing is not another. -/
theorem not_spells {a : Lexeme} (ha : a.Lawful) {f : Lexeme → Bool} (hf : f a = true) (text : String)
    (ht : f ⟨Lexical.kindOf text, text⟩ = false) : a.spells text = false := by
  cases hs : a.spells text with
  | false => rfl
  | true =>
    rw [Lexeme.eq_of_spells ha hs, ht] at hf
    cases hf

/-- An option with a mark is absent, or the mark stands there. -/
theorem optional_cases {p : Phrase} {text : String} {o : Option p.Result} {w : List Slot}
    (h : Derives limits₀ input (.optional (.after text p)) i w j o) :
    (o = none ∧ i = j) ∨ (tokenAt input i).spells text = true := by
  cases h with
  | optionalNone => exact .inl ⟨rfl, rfl⟩
  | optionalSome part => exact .inr (part.starts rfl)

/-- Items in brackets halt before a comma and before the closing bracket. -/
theorem halts_listed {r : Rule} {opening closing : String} {vs : List r.Result} {a b : Lexeme}
    (hn : (Phrase.rule r).nullable = false) (hne : closing ≠ ",")
    (hs : ∀ a ∈ [⟨.punct, ","⟩, ⟨Lexical.kindOf closing, closing⟩], r.starts a = false)
    (hh : ∀ v b, r.halts v ⟨.punct, ","⟩ b = true ∧
      r.halts v ⟨Lexical.kindOf closing, closing⟩ b = true) :
    (Phrase.listed opening closing (.rule r)).Halts vs a b := by
  refine ⟨hn, hne, fun a ha h => ?_⟩
  rcases h with h | h
  · have hc : a = ⟨.punct, ","⟩ := Lexeme.eq_of_spells ha h
    subst hc
    exact ⟨hs _ (by simp), fun v b => (hh v b).1⟩
  · have hc := Lexeme.eq_of_spells ha h
    subst hc
    exact ⟨hs _ (by simp), fun v b => (hh v b).2⟩

/-- Items halt before a semicolon and before what closes the body. -/
theorem halts_body {r : Rule} {vs : List r.Result} {a b : Lexeme}
    (hn : (Phrase.rule r).nullable = false) (hs : r.starts a = false) (ha : a.spells ";" = false)
    (hh : ∀ v, r.halts v a b = true) (hsemi : ∀ v b, r.halts v ⟨.punct, ";"⟩ b = true) :
    (Phrase.body (.rule r)).Halts vs a b := by
  refine ⟨hn, hs, ha, hh, fun v a b ha h => ?_⟩
  have hc : a = ⟨.punct, ";"⟩ := Lexeme.eq_of_spells ha h
  subst hc
  exact hsemi v b

end Syntree
