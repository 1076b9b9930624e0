import Syntree.Proofs.Progress
import Syntree.Proofs.Runs

/-!
What holds at every point of a session: a sequence of runs, each of which starts where the one
before it has ended, whatever that one ended with.
-/

namespace Syntree

/-- Points that a parser can be brought to from its start. -/
inductive Session (ts : TokenStream) : Point → Prop where
  | start : Session ts .start
  | step {α : Type} {g : Grammar α} {r : Except Error α} (earlier : Session ts p)
      (run : Runs ts .standard g p r q) : Session ts q

namespace TokenStream

/-- The index of the first token that ends the input. -/
def firstEof (ts : TokenStream) : Nat :=
  ts.lexemes.findIdx (·.kind == .eof)

theorem kind_firstEof (ts : TokenStream) : (ts.lexeme ts.firstEof).kind = .eof := by
  unfold lexeme Grammar.tokenAt
  cases hl : ts.lexemes[ts.firstEof]? with
  | none => rfl
  | some l =>
    obtain ⟨hlt, rfl⟩ := Array.getElem?_eq_some_iff.mp hl
    have hk := Array.findIdx_getElem (w := hlt)
    exact beq_iff_eq.mp hk

theorem firstEof_lt (ts : TokenStream) : ts.firstEof < ts.tokens.size := by
  obtain ⟨front, last, h, hk⟩ := ts.exists_last
  have hlast : last.toLexeme ∈ ts.lexemes :=
    Array.mem_map.mpr ⟨last, Array.mem_toList_iff.mp (by simp [h]), rfl⟩
  have hlt : ts.firstEof < ts.lexemes.size :=
    Array.findIdx_lt_size_of_exists ⟨last.toLexeme, hlast, by simp [hk]⟩
  rwa [lexemes, Array.size_map] at hlt

end TokenStream

/-- What holds of every point of a session. -/
structure Point.Sound (ts : TokenStream) (p : Point) : Prop where
  cursor_le : p.cursor ≤ ts.firstEof
  depth_le : p.depth ≤ 128
  furthest_lt : p.failure.furthest < ts.tokens.size
  furthest_ge : ∀ x ∈ p.failed, x.1 ≤ p.failure.furthest
  furthest_failed : (p.failed = [] ∧ p.failure.furthest = 0) ∨
    ∃ e, (p.failure.furthest, e) ∈ p.failed
  expected_iff : ∀ e, e ∈ p.failure.expected ↔ (p.failure.furthest, e) ∈ p.failed

namespace Point.Sound

variable {ts : TokenStream} {p q : Point}

theorem start (hts : ts.firstEof < ts.tokens.size) : Point.start.Sound ts where
  cursor_le := Nat.zero_le _
  depth_le := Nat.zero_le _
  furthest_lt := Nat.zero_lt_of_lt hts
  furthest_ge := nofun
  furthest_failed := .inl ⟨rfl, rfl⟩
  expected_iff := fun e => by simp [Point.start, Failure.none]

/-- The cursor can be put back to where it was. -/
theorem rewind (hp : p.Sound ts) (hq : q.Sound ts) :
    ({ q with cursor := p.cursor } : Point).Sound ts :=
  { hq with cursor_le := hp.cursor_le }

theorem relevel (h : p.Sound ts) {d : Nat} (hd : d ≤ 128) :
    ({ p with depth := d } : Point).Sound ts :=
  { h with depth_le := hd }

theorem next (h : p.Sound ts) : (p.next ts).Sound ts := by
  unfold Point.next
  split
  · exact h
  · next hk =>
    have hne : p.cursor ≠ ts.firstEof := by
      intro he
      exact hk (he ▸ ts.kind_firstEof)
    exact { h with cursor_le := Nat.lt_of_le_of_ne h.cursor_le hne }

/-- A later index starts the record anew, the same index adds to it, an earlier one is ignored. -/
theorem missing (hts : ts.firstEof < ts.tokens.size) (h : p.Sound ts) (e : Expectation) :
    (p.missing e).Sound ts := by
  have hc : p.cursor < ts.tokens.size := Nat.lt_of_le_of_lt h.cursor_le hts
  unfold Point.missing Failure.record
  rcases Nat.lt_trichotomy p.failure.furthest p.cursor with hlt | heq | hgt
  · have hnew (e' : Expectation) : (p.cursor, e') ∉ p.failed := by
      intro hm
      exact absurd (h.furthest_ge _ hm) (Nat.not_le.mpr hlt)
    rw [if_pos hlt]
    refine ⟨h.cursor_le, h.depth_le, hc, ?_, .inr ⟨e, List.mem_cons_self⟩, ?_⟩
    · intro x hx
      rcases List.mem_cons.mp hx with rfl | hx
      · exact Nat.le_refl _
      · exact Nat.le_of_lt (Nat.lt_of_le_of_lt (h.furthest_ge x hx) hlt)
    · intro e'
      simp [hnew e']
  · rw [if_neg (by omega), if_pos heq]
    refine ⟨h.cursor_le, h.depth_le, hc, ?_, .inr ⟨e, List.mem_cons_self⟩, ?_⟩
    · intro x hx
      rcases List.mem_cons.mp hx with rfl | hx
      · exact Nat.le_refl _
      · exact heq ▸ h.furthest_ge x hx
    · intro e'
      simp [h.expected_iff e', heq]
  · rw [if_neg (by omega), if_neg (by omega)]
    refine ⟨h.cursor_le, h.depth_le, h.furthest_lt, ?_, ?_, ?_⟩
    · intro x hx
      rcases List.mem_cons.mp hx with rfl | hx
      · exact Nat.le_of_lt hgt
      · exact h.furthest_ge x hx
    · rcases h.furthest_failed with ⟨-, h0⟩ | ⟨e', he'⟩
      · omega
      · exact .inr ⟨e', List.mem_cons_of_mem _ he'⟩
    · intro e'
      have hne : p.failure.furthest ≠ p.cursor := by omega
      simp [h.expected_iff e', hne]

theorem expecting (hts : ts.firstEof < ts.tokens.size) (h : p.Sound ts) (es : List Expectation) :
    (p.expecting es).Sound ts := by
  unfold Point.expecting
  induction es generalizing p with
  | nil => exact h
  | cons e es ih => exact ih (h.missing hts e)

/-- What is reported as expected is what was expected in vain at the furthest index. -/
theorem mem_expected (h : p.Sound ts) (d : String) :
    d ∈ (ts.mismatch p.failure).cause.expected ↔
      ∃ e, (p.failure.furthest, e) ∈ p.failed ∧ e.described = d := by
  simp [TokenStream.mismatch, Cause.expected, h.expected_iff]

end Point.Sound

/-! What a step leaves as it was -/

theorem Failure.furthest_le_record (f : Failure) (i : Nat) (e : Expectation) :
    f.furthest ≤ (f.record i e).furthest := by
  unfold Failure.record
  split
  · exact Nat.le_of_lt ‹_›
  · split
    · exact Nat.le_of_eq ‹_›
    · exact Nat.le_refl _

/-- The same depth, and a record that has not gone back. -/
structure Point.Onward (p q : Point) : Prop where
  depth_eq : q.depth = p.depth
  furthest_le : p.failure.furthest ≤ q.failure.furthest

namespace Point.Onward

variable {ts : TokenStream} {p q q' : Point}

theorem refl (p : Point) : p.Onward p := ⟨rfl, Nat.le_refl _⟩

theorem trans (h : p.Onward q) (h' : q.Onward q') : p.Onward q' :=
  ⟨h'.depth_eq.trans h.depth_eq, Nat.le_trans h.furthest_le h'.furthest_le⟩

theorem next (p : Point) : p.Onward (p.next ts) := by
  unfold Point.next
  split <;> exact ⟨rfl, Nat.le_refl _⟩

theorem expecting (p : Point) (es : List Expectation) : p.Onward (p.expecting es) := by
  unfold Point.expecting
  induction es generalizing p with
  | nil => exact refl p
  | cons e es ih =>
    have he : p.Onward (p.missing e) := ⟨rfl, Failure.furthest_le_record _ _ _⟩
    exact he.trans (ih _)

end Point.Onward

theorem Limits.lt_of_exceeded? {limits : Limits} {d n : Nat} (h : limits.exceeded? d = none)
    (hl : limits.nesting = some n) : d < n := by
  simpa [exceeded?, hl] using h

section

variable {α : Type} {ts : TokenStream} {g : Grammar α} {p q : Point} {r : Except Error α}

/-- Under all limits, and whatever it ends with, a run closes the levels it has opened. -/
theorem Runs.onward {limits : Limits} (h : Runs ts limits g p r q) : p.Onward q := by
  induction h with
  | act step =>
    rcases Grammar.act?_cases step with ⟨rfl, -⟩ | ⟨rfl, -⟩ | ⟨es, rfl, -⟩
    · exact .refl _
    · exact .next _
    · exact .expecting _ es
  | body _ _ ih | bindError _ ih | first _ ih | lost _ _ ih | commit _ _ _ ih | loopEnd _ ih
  | loopError _ ih => exact ih
  | bind _ _ ihf ihr | loopNext _ _ ihf ihr => exact ihf.trans ihr
  | second _ _ _ _ ih ihr => exact ih.trans ⟨ihr.depth_eq, ihr.furthest_le⟩
  | tooDeep => exact .refl _
  | nested _ _ ih =>
    refine ⟨?_, ih.furthest_le⟩
    simp [ih.depth_eq]

/-- What one run keeps: its errors of mismatch are what the record says where it has ended. -/
theorem Runs.keeps (hts : ts.firstEof < ts.tokens.size) (h : Runs ts .standard g p r q)
    (hp : p.Sound ts) :
    q.Sound ts ∧ ∀ e, r = .error e → e.cause.recoverable = true → e = ts.mismatch q.failure := by
  induction h with
  | act step =>
    rcases Grammar.act?_cases step with ⟨rfl, he⟩ | ⟨rfl, v, rfl⟩ | ⟨es, rfl, rfl⟩
    · refine ⟨hp, fun e hr hc => ?_⟩
      rcases he e hr with he | hn
      · exact he
      · rw [hc] at hn
        cases hn
    · exact ⟨hp.next, nofun⟩
    · exact ⟨hp.expecting hts es, fun e hr _ => (Except.error.inj hr).symm⟩
  | body _ _ ih | lost _ _ ih => exact ih hp
  | bind _ _ ihf ihr | loopNext _ _ ihf ihr => exact ihr (ihf hp).1
  | bindError _ ih | loopError _ ih =>
    obtain ⟨hq, he⟩ := ih hp
    exact ⟨hq, fun e hr => he e (congrArg _ (Except.error.inj hr))⟩
  | first _ ih | loopEnd _ ih => exact ⟨(ih hp).1, nofun⟩
  | commit _ _ _ ih => exact ⟨(ih hp).1, fun e hr _ => (Except.error.inj hr).symm⟩
  | second _ _ _ _ ih ihr => exact ihr (hp.rewind (ih hp).1)
  | tooDeep =>
    refine ⟨hp, ?_⟩
    rintro - ⟨⟩ ⟨⟩
  | nested fits _ ih =>
    obtain ⟨hq, he⟩ := ih (hp.relevel (Limits.lt_of_exceeded? fits rfl))
    exact ⟨hq.relevel (Nat.le_trans (Nat.sub_le _ _) hq.depth_le), he⟩

theorem Session.sound (hts : ts.firstEof < ts.tokens.size) (h : Session ts p) : p.Sound ts := by
  induction h with
  | start => exact .start hts
  | step _ run ih => exact (run.keeps hts ih).1

/-- Runs within a run start from points that are as sound as the point it starts from. -/
theorem Enters.sound {β : Type} {h : Grammar β} (hts : ts.firstEof < ts.tokens.size)
    (he : Enters ts .standard h q g p) (hp : p.Sound ts) : q.Sound ts := by
  induction he with
  | self => exact hp
  | body _ _ ih | bind _ ih | first _ ih | loop _ ih => exact ih hp
  | bindNext first _ ih => exact ih (first.keeps hts hp).1
  | second failed _ _ _ ih => exact ih (hp.rewind (failed.keeps hts hp).1)
  | loopNext round _ ih => exact ih (round.keeps hts hp).1
  | nested fits _ ih => exact ih (hp.relevel (Limits.lt_of_exceeded? fits rfl))

end

/-- For all tokens: what running a grammar ends with is a run, and after every step that is taken
anywhere in a session, whether it has succeeded or not, the cursor has not passed the first end of
the input; the depth is what it was before the step, and no more than 128; the furthest index has
not gone back, is the largest at which an expectation has failed, and is that of a token; what is
reported as expected is what was expected there in vain; and an error of mismatch that the step
returns is the one reported from the point where it has stopped. -/
theorem session_keeps (T : List Token) :
    let ts := TokenStream.ofTokens T
    (∀ {α : Type} (g : Grammar α) (s : State) (failed : List (Nat × Expectation)),
      (g.run ts.lexemes .standard s).Ran ts .standard g (s.point failed)) ∧
    ∀ {α β : Type} {g : Grammar α} {h : Grammar β} {p q q' : Point} {r : Except Error β},
      Session ts p → Enters ts .standard h q g p → Runs ts .standard h q r q' →
      q'.cursor ≤ ts.firstEof ∧
      q'.depth = q.depth ∧ q'.depth ≤ 128 ∧
      q.failure.furthest ≤ q'.failure.furthest ∧
      (∀ x ∈ q'.failed, x.1 ≤ q'.failure.furthest) ∧
      (if q'.failed = [] then q'.failure.furthest = 0
        else ∃ e, (q'.failure.furthest, e) ∈ q'.failed) ∧
      q'.failure.furthest < ts.tokens.size ∧
      (∀ d, d ∈ (ts.mismatch q'.failure).cause.expected ↔
        ∃ e, (q'.failure.furthest, e) ∈ q'.failed ∧ e.described = d) ∧
      ∀ e, r = .error e → e.cause.recoverable = true → e = ts.mismatch q'.failure := by
  intro ts
  have hts : ts.firstEof < ts.tokens.size := ts.firstEof_lt
  refine ⟨fun g s failed => g.run_ran s failed, ?_⟩
  intro α β g h p q q' r hs hin hrun
  obtain ⟨hq, he⟩ := hrun.keeps hts (hin.sound hts (hs.sound hts))
  have ho := hrun.onward
  refine ⟨hq.cursor_le, ho.depth_eq, hq.depth_le, ho.furthest_le, hq.furthest_ge, ?_,
    hq.furthest_lt, hq.mem_expected, he⟩
  rcases hq.furthest_failed with ⟨hn, h0⟩ | ⟨e, hm⟩
  · rw [if_pos hn]
    exact h0
  · rw [if_neg (List.ne_nil_of_mem hm)]
    exact ⟨e, hm⟩

/-- A mismatch behind a token and one level deeper is rewound, and still what is reported when the
second alternative fails too. -/
theorem session_keeps_rewound :
    let ts := TokenStream.ofTokens [⟨⟨.keyword, "let"⟩, ⟨.startOf "f", .startOf "f"⟩⟩]
    let g := Grammar.orElse (Grammar.literal "let" >>= fun _ => .nested (.literal "x"))
      (.literal "fn")
    ∃ e q, Runs ts .standard g .start (.error e) q ∧ e = ts.mismatch q.failure ∧
      q.failure.furthest = 1 ∧ q.cursor = 0 ∧ q.depth = 0 := by
  intro ts g
  have hnext : Point.start.next ts = ⟨1, .none, 0, []⟩ := by decide +kernel
  have hlet : Runs ts .standard (.literal "let") .start (.ok ()) ⟨1, .none, 0, []⟩ := by
    rw [← hnext]
    exact .bind (.act (if_pos (by decide +kernel))) (.act rfl)
  have hx : Runs ts .standard (.literal "x") ⟨1, .none, 1, []⟩
      (.error (ts.mismatch ⟨1, [.literal "x"]⟩)) ⟨1, ⟨1, [.literal "x"]⟩, 1, [(1, .literal "x")]⟩ :=
    .bindError (.act (if_neg (by decide +kernel)))
  have hnested := Runs.nested (p := ⟨1, .none, 0, []⟩) rfl hx
  have hfn : Runs ts .standard (.literal "fn") ⟨0, ⟨1, [.literal "x"]⟩, 0, [(1, .literal "x")]⟩
      (.error (ts.mismatch ⟨1, [.literal "x"]⟩))
      ⟨0, ⟨1, [.literal "x"]⟩, 0, [(0, .literal "fn"), (1, .literal "x")]⟩ :=
    .bindError (.act (if_neg (by decide +kernel)))
  have hrun : Runs ts .standard g .start _ _ := .second (.bind hlet hnested) rfl rfl hfn
  obtain ⟨-, hkeeps⟩ := session_keeps [⟨⟨.keyword, "let"⟩, ⟨.startOf "f", .startOf "f"⟩⟩]
  obtain ⟨-, hdepth, -, -, -, -, -, -, he⟩ := hkeeps .start .self hrun
  exact ⟨_, _, hrun, he _ rfl rfl, rfl, rfl, hdepth⟩

end Syntree
