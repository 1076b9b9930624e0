import Syntree.Proofs.Exec

/-!
How a run can end, whatever it carries along: partial correctness of grammars.

A run that may not open enough rules ends as it must; nothing is asked of it. Of every other run it
is said what it reads, where it stops, and how many constructs it opens at a time: only where that
many cannot be open at once may it end for want of room.
-/

namespace Syntree

variable {α β : Type}

/-- Whether there is no room for so many constructs where `depth` are open already. -/
def Limits.Short (limits : Limits) (depth room : Nat) : Prop :=
  ∃ n, limits.nesting = some n ∧ n < depth + room

/-- Whether a run that was not cut short ends as `P` says, with a value or with none and with the
cursor at an index, and with so many constructs open as `depth` says. It may be cut short for want
of room if `short` holds. -/
def Reply.Ends (r : Reply α) (short : Prop) (depth : Nat) (P : Option α → Nat → Prop) : Prop :=
  match r.outcome with
  | .ok v => r.state.depth = depth ∧ P (some v) r.state.cursor
  | .mismatch => r.state.depth = depth ∧ P none r.state.cursor
  | .fatal (.numberOutOfRange _ _) => False
  | .fatal (.nestingTooDeep _ _) => short
  | .exhausted => True

namespace Reply.Ends

variable {short : Prop} {d : Nat} {P : Option α → Nat → Prop} {Q : Option β → Nat → Prop}

theorem mono {r : Reply α} {short' : Prop} {P' : Option α → Nat → Prop} (h : r.Ends short d P)
    (hs : short → short') (hp : ∀ o i, P o i → P' o i) : r.Ends short' d P' := by
  unfold Reply.Ends at h ⊢
  split at h
  · exact ⟨h.1, hp _ _ h.2⟩
  · exact ⟨h.1, hp _ _ h.2⟩
  · cases h
  · exact hs h
  · trivial

/-- Of the state only the cursor and the depth matter. -/
theorem restate {r : Reply α} {t : State} {d' : Nat} (h : r.Ends short d P)
    (ht : t.cursor = r.state.cursor) (hd : r.state.depth = d → t.depth = d') :
    (⟨r.outcome, t⟩ : Reply α).Ends short d' P := by
  cases r with
  | mk o t' =>
    cases o with
    | ok | mismatch => exact ⟨hd h.1, ht ▸ h.2⟩
    | fatal e => cases e <;> exact h
    | exhausted => trivial

theorem andThen {r : Reply α} {f : α → State → Reply β} (h : r.Ends short d P)
    (hn : ∀ i, P none i → Q none i)
    (hf : ∀ v t, t.depth = d → P (some v) t.cursor → (f v t).Ends short d Q) :
    (r.andThen f).Ends short d Q := by
  cases r with
  | mk o t =>
    cases o with
    | ok v => exact hf v t h.1 h.2
    | mismatch => exact ⟨h.1, hn _ h.2⟩
    | fatal e => cases e <;> exact h
    | exhausted => trivial

theorem orElse {limits : Limits} {i : Nat} {r : Reply α} {f : State → Reply α}
    {P' : Option α → Nat → Prop} (h : r.Ends short d P)
    (hs : ∀ v j, P (some v) j → P' (some v) j)
    (hc : ∀ j, P none j → limits.committed i j = true → P' none j)
    (hf : ∀ t j, P none j → limits.committed i j = false → t.cursor = i → t.depth = d →
      (f t).Ends short d P') :
    (r.orElse limits i f).Ends short d P' := by
  cases r with
  | mk o t =>
    cases o with
    | ok v => exact ⟨h.1, hs _ _ h.2⟩
    | fatal e => cases e <;> exact h
    | exhausted => trivial
    | mismatch =>
      unfold Reply.orElse
      cases hd : limits.committed i t.cursor with
      | true => exact ⟨h.1, hc _ h.2 hd⟩
      | false => exact hf _ _ h.2 hd rfl h.1

/-- What holds of a run from a state with the same depth. -/
theorem at_depth {r : Reply α} {limits : Limits} {room : Nat} {t : State} (hd : t.depth = d)
    (h : r.Ends (limits.Short t.depth room) t.depth P) : r.Ends (limits.Short d room) d P := by
  rwa [hd] at h

end Reply.Ends

theorem Limits.Short.mono {limits : Limits} {d room room' : Nat} (h : limits.Short d room)
    (hle : room ≤ room') : limits.Short d room' := by
  obtain ⟨n, hn, hlt⟩ := h
  exact ⟨n, hn, by omega⟩

theorem Limits.short_of_exceeded {limits : Limits} {d room n : Nat}
    (h : limits.exceeded? d = some n) : limits.Short d (room + 1) := by
  obtain ⟨hn, hle⟩ := Option.filter_eq_some_iff.mp h
  simp only [decide_eq_true_eq] at hle
  exact ⟨n, hn, by omega⟩

namespace Grammar

section

variable (input : Array Lexeme) (limits : Limits) (room : Nat)
  (rules : (r : Rule) → State → Reply r.Result)

/-- From index `i` the grammar reads `v`, up to index `j`, and opens at most `room` constructs at a
time. -/
def Reads (g : Grammar α) (i : Nat) (v : α) (j : Nat) : Prop :=
  ∀ s : State, s.cursor = i → (exec input limits rules g s).Ends (limits.Short s.depth room) s.depth
    fun o k => o = some v ∧ k = j

/-- At index `i` the grammar is given up. -/
def Fails (g : Grammar α) (i : Nat) : Prop :=
  ∀ s : State, s.cursor = i → (exec input limits rules g s).Ends (limits.Short s.depth room) s.depth
    fun o k => o = none ∧ limits.committed i k = false

/-- From index `i` the grammar reads some items, each by `g`, and is then given up. -/
inductive ReadsAll (g : Grammar α) : Nat → List α → Nat → Prop where
  | nil {i : Nat} (stop : Fails input limits room rules g i) : ReadsAll g i [] i
  | cons {i j k : Nat} {v : α} {vs : List α} (first : Reads input limits room rules g i v j)
      (rest : ReadsAll g j vs k) : ReadsAll g i (v :: vs) k

end

variable {input : Array Lexeme} {limits : Limits} {room : Nat}
  {rules : (r : Rule) → State → Reply r.Result} {i j k : Nat}

theorem committed_self (i : Nat) : limits.committed i i = false := by
  unfold Limits.committed
  cases limits.lookahead <;> simp

theorem committed_one (hl : limits.lookahead = some 1) :
    limits.committed i j = false ↔ j ≤ i + 1 := by
  simp [Limits.committed, hl]

theorem reads_pure (v : α) (i : Nat) : Reads input limits room rules (pure v) i v i := by
  intro s hs
  exact ⟨rfl, rfl, hs⟩

theorem reads_here (i : Nat) : Reads input limits room rules here i i i := by
  rintro s rfl
  exact ⟨rfl, rfl, rfl⟩

theorem reads_bind {g : Grammar β} {f : β → Grammar α} {u : β} {v : α}
    (hg : Reads input limits room rules g i u j) (hf : Reads input limits room rules (f u) j v k) :
    Reads input limits room rules (g >>= f) i v k := by
  intro s hs
  refine (hg s hs).andThen (fun _ h => absurd h.1 (by simp)) ?_
  rintro w t hd ⟨hw, ht⟩
  cases hw
  exact .at_depth hd (hf t ht)

theorem reads_literal {text : String} (h : (tokenAt input i).spells text = true) :
    Reads input limits room rules (literal text) i () (i + 1) := by
  rintro s rfl
  rw [literal_ok.mpr ⟨h, rfl⟩]
  exact ⟨rfl, rfl, rfl⟩

theorem reads_token {kind : TokenKind} (hk : kind ≠ .eof) (h : (tokenAt input i).kind = kind) :
    Reads input limits room rules (token kind) i (tokenAt input i).value (i + 1) := by
  rintro s rfl
  rw [(token_ok hk).mpr ⟨h, rfl, rfl⟩]
  exact ⟨rfl, rfl, rfl⟩

/-- One more construct is open inside. -/
theorem ends_nested {g : Grammar α} {s : State} {P : Option α → Nat → Prop}
    (h : (exec input limits rules g { s with depth := s.depth + 1 }).Ends
      (limits.Short (s.depth + 1) room) (s.depth + 1) P) :
    (exec input limits rules (nested g) s).Ends (limits.Short s.depth (room + 1)) s.depth P := by
  unfold exec
  split
  · next n hn => exact Limits.short_of_exceeded hn
  · refine (h.mono ?_ fun _ _ h => h).restate rfl fun hd => ?_
    · rintro ⟨n, hn, hlt⟩
      exact ⟨n, hn, by omega⟩
    · simp [hd]

theorem reads_nested {g : Grammar α} {v : α} (h : Reads input limits room rules g i v j) :
    Reads input limits (room + 1) rules (nested g) i v j :=
  fun s hs => ends_nested (h { s with depth := s.depth + 1 } hs)

theorem Reads.mono {room' : Nat} {g : Grammar α} {v : α} (h : Reads input limits room rules g i v j)
    (hle : room ≤ room') : Reads input limits room' rules g i v j := by
  intro s hs
  exact (h s hs).mono (fun hr => hr.mono hle) fun _ _ h => h

theorem reads_orElse_left {a b : Grammar α} {v : α} (h : Reads input limits room rules a i v j) :
    Reads input limits room rules (orElse a b) i v j := by
  intro s hs
  exact (h s hs).orElse (fun _ _ h => h) (fun _ h => absurd h.1 (by simp))
    (fun _ _ h => absurd h.1 (by simp))

theorem reads_orElse_right {a b : Grammar α} {v : α} (ha : Fails input limits room rules a i)
    (hb : Reads input limits room rules b i v j) :
    Reads input limits room rules (orElse a b) i v j := by
  rintro s rfl
  refine (ha s rfl).orElse (fun _ _ h => absurd h.1 (by simp)) ?_
    fun t _ _ _ ht hd => .at_depth hd (hb t ht)
  rintro k ⟨-, hc⟩ hd
  rw [hc] at hd
  cases hd

theorem reads_choice {gs : List (Grammar α)} {g : Grammar α} {hs : List (Grammar α)} {v : α}
    (hf : ∀ g' ∈ gs, Fails input limits room rules g' i)
    (hg : Reads input limits room rules g i v j) :
    Reads input limits room rules (choice (gs ++ g :: hs)) i v j := by
  induction gs with
  | nil => exact reads_orElse_left hg
  | cons a gs ih =>
    exact reads_orElse_right (hf a (by simp)) (ih fun g' hg' => hf g' (by simp [hg']))

/-- What has read one token and finds no more is given up. -/
theorem fails_bind {g : Grammar β} {f : β → Grammar α} (hg : Fails input limits room rules g i) :
    Fails input limits room rules (g >>= f) i := by
  intro s hs
  exact (hg s hs).andThen (fun _ h => ⟨rfl, h.2⟩) (fun _ _ _ h => absurd h.1 (by simp))

theorem reads_attempt_some {g : Grammar α} {v : α} (h : Reads input limits room rules g i v j) :
    Reads input limits room rules (attempt g) i (some v) j :=
  reads_orElse_left (reads_bind h (reads_pure _ _))

theorem reads_attempt_none {g : Grammar α} (h : Fails input limits room rules g i) :
    Reads input limits room rules (attempt g) i none i :=
  reads_orElse_right (fails_bind h) (reads_pure _ _)

theorem reads_many {g : Grammar α} {vs : List α} (h : ReadsAll input limits room rules g i vs j) :
    Reads input limits room rules (many g) i vs j := by
  have hl : ∀ n items s, s.cursor = i →
      (iterate (fun items t => exec input limits rules (round g items) t) n items s).Ends
        (limits.Short s.depth room) s.depth fun o k => o = some (vs.reverse ++ items) ∧ k = j := by
    induction h with
    | nil stop =>
      intro n items s hs
      cases n with
      | zero => trivial
      | succ n =>
        have hr : Reads input limits room rules (round g items) _ none _ :=
          reads_bind (reads_attempt_none stop) (reads_pure _ _)
        refine (hr s hs).andThen (fun _ h => absurd h.1 (by simp)) ?_
        rintro o t hd ⟨ho, ht⟩
        cases ho
        exact ⟨hd, rfl, ht⟩
    | @cons i j k v vs first rest ih =>
      intro n items s hs
      cases n with
      | zero => trivial
      | succ n =>
        have hr : Reads input limits room rules (round g items) i (some (v :: items)) j :=
          reads_bind (reads_attempt_some first) (reads_pure _ _)
        refine (hr s hs).andThen (fun _ h => absurd h.1 (by simp)) ?_
        rintro o t hd ⟨ho, ht⟩
        cases ho
        simpa using Reply.Ends.at_depth hd (ih n (v :: items) t ht)
  intro s hs
  refine (hl _ [] s hs).andThen (fun _ h => absurd h.1 (by simp)) ?_
  rintro items t hd ⟨hv, ht⟩
  cases hv
  exact ⟨hd, by simp, ht⟩

end Grammar

end Syntree
