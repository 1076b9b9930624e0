import Syntree.Proofs.Depth
import Syntree.Proofs.Likeness
import Syntree.Proofs.Words

/-!
The order of alternatives. Where each alternative asks for a word of its own first, at most one of
them goes past the token where it starts, and what the others have put on record there is the same
in every order or is forgotten.
-/

namespace Syntree

open Grammar

variable {α β : Type} {input : Array Lexeme} {limits : Limits}
  {rules rules' : (r : Rule) → State → Reply r.Result}

/-! Failure records -/

namespace Failure

variable {f g h : Failure} {i : Nat} {es es' : List Expectation}

/-- Records of the same failures, in whatever order. -/
def Same (f g : Failure) : Prop :=
  f.furthest = g.furthest ∧ f.expected.Perm g.expected

theorem Same.refl (f : Failure) : f.Same f := ⟨rfl, .refl _⟩

theorem Same.trans (hfg : f.Same g) (hgh : g.Same h) : f.Same h :=
  ⟨hfg.1.trans hgh.1, hfg.2.trans hgh.2⟩

theorem Same.record (hfg : f.Same g) (i : Nat) (e : Expectation) :
    (f.record i e).Same (g.record i e) := by
  obtain ⟨hi, hp⟩ := hfg
  unfold Failure.record
  rw [hi]
  split
  · exact .refl _
  · split
    · exact ⟨rfl, hp.insert e⟩
    · exact ⟨hi, hp⟩

/-- Puts several expectations on record. -/
def recordAll (f : Failure) (i : Nat) (es : List Expectation) : Failure :=
  es.foldl (fun f e => f.record i e) f

theorem Same.recordAll (hfg : f.Same g) (i : Nat) (es : List Expectation) :
    (f.recordAll i es).Same (g.recordAll i es) := by
  induction es generalizing f g with
  | nil => exact hfg
  | cons e es ih => exact ih (hfg.record i e)

theorem record_swap (f : Failure) (i : Nat) (e e' : Expectation) :
    ((f.record i e).record i e').Same ((f.record i e').record i e) := by
  unfold Failure.record
  by_cases hlt : f.furthest < i
  · simp only [if_pos hlt, Nat.lt_irrefl, if_false, if_true]
    exact ⟨rfl, List.perm_insert_swap e' e []⟩
  · by_cases heq : f.furthest = i
    · simp only [if_neg hlt, if_pos heq, Nat.lt_irrefl, if_false, if_true]
      exact ⟨rfl, List.perm_insert_swap e' e f.expected⟩
    · simp only [if_neg hlt, if_neg heq]
      exact .refl f

/-- In whatever order expectations fail at an index, the record is the same. -/
theorem recordAll_perm (hp : es.Perm es') (f : Failure) (i : Nat) :
    (f.recordAll i es).Same (f.recordAll i es') := by
  induction hp generalizing f with
  | nil => exact .refl f
  | cons e _ ih => exact ih (f.record i e)
  | swap e e' es => exact (record_swap f i e' e).recordAll i es
  | trans _ _ ih ih' => exact (ih f).trans (ih' f)

theorem record_of_lt (hi : i < f.furthest) (e : Expectation) : f.record i e = f := by
  unfold Failure.record
  rw [if_neg (Nat.lt_asymm hi), if_neg (Nat.ne_of_gt hi)]

theorem recordAll_of_lt (hi : i < f.furthest) (es : List Expectation) : f.recordAll i es = f := by
  induction es with
  | nil => rfl
  | cons e es ih => rwa [recordAll, List.foldl_cons, record_of_lt hi]

theorem furthest_recordAll_le (hf : f.furthest ≤ i) (es : List Expectation) :
    (f.recordAll i es).furthest ≤ i := by
  induction es generalizing f with
  | nil => exact hf
  | cons e es ih => exact ih (furthest_record_le (Nat.le_refl i) hf)

end Failure

theorem State.cursor_expecting (s : State) (es : List Expectation) :
    (s.expecting es).cursor = s.cursor := rfl

theorem State.expecting_of_lt {s : State} (h : s.cursor < s.failure.furthest)
    (es : List Expectation) : s.expecting es = s := by
  change { s with failure := s.failure.recordAll s.cursor es } = s
  rw [Failure.recordAll_of_lt h]

/-- Behind a mismatch the records are the same. While runs stand at an index, both may also have
come less far, so that they differ in what will be forgotten. -/
def Likeness.ahead : Likeness where
  held c f g := f.Same g ∨ f.furthest < c ∧ g.furthest < c
  missed := Failure.Same
  held_of_missed := .inl
  held_next h := h.imp_right fun ⟨hf, hg⟩ => ⟨Nat.lt_succ_of_lt hf, Nat.lt_succ_of_lt hg⟩
  record e h := by
    rcases h with h | ⟨hf, hg⟩
    · exact h.record _ e
    · unfold Failure.record
      rw [if_pos hf, if_pos hg]
      exact .refl _

open Likeness (ahead)

/-- Whatever fails at an index, it is forgotten past that index. -/
theorem held_recordAll {c : Nat} {f g : Failure} (h : ahead.held c f g)
    (es es' : List Expectation) :
    ahead.held (c + 1) (f.recordAll c es) (g.recordAll c es') := by
  by_cases hlt : c < f.furthest
  · rcases h with h | ⟨hf, -⟩
    · rw [Failure.recordAll_of_lt hlt, Failure.recordAll_of_lt (h.1 ▸ hlt)]
      exact .inl h
    · exact absurd hf (Nat.lt_asymm hlt)
  · have hle : f.furthest ≤ c ∧ g.furthest ≤ c := by
      rcases h with h | ⟨hf, hg⟩
      · exact ⟨Nat.le_of_not_lt hlt, h.1 ▸ Nat.le_of_not_lt hlt⟩
      · exact ⟨Nat.le_of_lt hf, Nat.le_of_lt hg⟩
    exact .inr ⟨Nat.lt_succ_of_le (Failure.furthest_recordAll_le hle.1 es),
      Nat.lt_succ_of_le (Failure.furthest_recordAll_le hle.2 es')⟩

namespace Grammar

/-- Two ways in which rules run, the second with alternatives in another order. -/
structure Likewise (input : Array Lexeme) (rules rules' : (r : Rule) → State → Reply r.Result) :
    Prop where
  alike {r : Rule} {s s' : State} : ahead.Beside s s' → ahead.Alike (rules r s) (rules' r s')
  /-- Where its word is there, it does not matter to a rule what has failed before. -/
  spelled {r : Rule} {word : String} {s s' : State} : r.word? = some word →
    (tokenAt input s.cursor).spells word = true → s.cursor = s'.cursor → s.depth = s'.depth →
    ahead.held (s.cursor + 1) s.failure s'.failure → ahead.Alike (rules r s) (rules' r s')

theorem exec_spelled_alike (h : Likewise input rules rules') {g : Grammar α} (hg : g.Faithful)
    {word : String} {s s' : State} (hw : g.word? = some word)
    (hs : (tokenAt input s.cursor).spells word = true) (hc : s.cursor = s'.cursor)
    (hd : s.depth = s'.depth) (hf : ahead.held (s.cursor + 1) s.failure s'.failure) :
    ahead.Alike (exec input limits rules g s) (exec input limits rules' g s') := by
  induction g with
  | call r => exact h.spelled hw hs hc hd hf
  | bind g f ihg =>
    refine (ihg hg.1 hw).andThen fun v t t' ht => ?_
    exact Likeness.exec_alike (fun _ _ _ _ hq => h.alike hq) (hg.2 v) ht
  | _ => cases hw

variable (input) in
/-- Whether a rule whose word is there fails past it, if it fails. -/
def FailsPast (rules : (r : Rule) → State → Reply r.Result) : Prop :=
  ∀ r word s, r.word? = some word → (tokenAt input s.cursor).spells word = true →
    (rules r s).Beyond s.cursor

/-- What has found its word fails past it, if it fails. -/
theorem exec_spelled_beyond (ht : Tracked rules) (hb : FailsPast input rules) {g : Grammar α}
    (hg : g.Faithful) {word : String} {s : State} (hw : g.word? = some word)
    (hs : (tokenAt input s.cursor).spells word = true) :
    (exec input limits rules g s).Beyond s.cursor := by
  induction g with
  | call r => exact hb r word s hw hs
  | bind g f ihg => exact (ihg hg.1 hw).andThen fun v t hp => exec_beyond ht (hg.2 v) hp
  | _ => cases hw

/-- Likewise for rules that run at all. -/
structure Paired (input : Array Lexeme) (rules rules' : (r : Rule) → State → Reply r.Result) : Prop
    extends Likewise input rules rules' where
  tracked : Tracked rules
  past : FailsPast input rules
  asks : AsksFirst input rules
  asks' : AsksFirst input rules'

section Choice

variable (h : Paired input rules rules') {gs gs' tail : List (Grammar α)} {s s' : State}
  (hs : ahead.Beside s s')
  (htail : ∀ t t', ahead.Missed t t' → ahead.Alike (exec input limits rules (choice tail) t)
    (exec input limits rules' (choice tail) t'))

include h hs htail

/-- The alternative whose word is there decides how a choice ends. -/
theorem choice_spelled_alike {g : Grammar α} {as bs as' bs' : List (Grammar α)} {word : String}
    (hg : g.Faithful) (hw : g.word? = some word)
    (hword : (tokenAt input s.cursor).spells word = true)
    (hbefore : ∀ a ∈ as, a.Unannounced (tokenAt input s.cursor))
    (hbehind : ∀ b ∈ bs, b.Unannounced (tokenAt input s.cursor))
    (hbefore' : ∀ a ∈ as', a.Unannounced (tokenAt input s.cursor))
    (hbehind' : ∀ b ∈ bs', b.Unannounced (tokenAt input s.cursor)) :
    ahead.Alike (exec input limits rules (choice (as ++ g :: bs ++ tail)) s)
      (exec input limits rules' (choice (as' ++ g :: bs' ++ tail)) s') := by
  rw [List.append_assoc, List.append_assoc, choice_asks h.asks hbefore,
    choice_asks h.asks' (hs.cursor ▸ hbefore')]
  -- the word itself
  have hheld : ahead.held (s.cursor + 1) (s.expecting (asked as)).failure
      (s'.expecting (asked as')).failure := by
    change ahead.held _ (s.failure.recordAll s.cursor _) (s'.failure.recordAll s'.cursor _)
    rw [← hs.cursor]
    exact held_recordAll hs.record _ _
  have hread : ahead.Alike (exec input limits rules g (s.expecting (asked as)))
      (exec input limits rules' g (s'.expecting (asked as'))) :=
    exec_spelled_alike h.toLikewise hg hw hword hs.cursor hs.depth hheld
  have hpast : (exec input limits rules g (s.expecting (asked as))).Beyond s.cursor :=
    exec_spelled_beyond (s := s.expecting (asked as)) h.tracked h.past hg hw hword
  rw [List.cons_append, List.cons_append, exec_choice_cons, exec_choice_cons,
    State.cursor_expecting, State.cursor_expecting, ← hs.cursor]
  refine hread.orElse fun t t' hx hmissed => ?_
  -- past the word nothing that is asked for here is put on record
  have hfar : s.cursor < t.failure.furthest := by
    rw [hx] at hpast
    exact hpast
  have hfar' : s.cursor < t'.failure.furthest := hmissed.record.1 ▸ hfar
  rw [choice_asks (s := { t with cursor := s.cursor }) h.asks hbehind,
    choice_asks (s := { t' with cursor := s.cursor }) h.asks' hbehind',
    State.expecting_of_lt (s := { t with cursor := s.cursor }) hfar,
    State.expecting_of_lt (s := { t' with cursor := s.cursor }) hfar']
  exact htail _ _ (hmissed.rewind _)

/-- A choice between alternatives that are told apart by their words ends alike in every order. -/
theorem choice_alike (hgs : ToldApart gs) (hne : gs ≠ []) (hp : gs'.Perm gs) :
    ahead.Alike (exec input limits rules (choice (gs ++ tail)) s)
      (exec input limits rules' (choice (gs' ++ tail)) s') := by
  by_cases hfound : ∃ g ∈ gs, ∃ word, g.word? = some word ∧
      (tokenAt input s.cursor).spells word = true
  · obtain ⟨g, hg, word, hw, hword⟩ := hfound
    have hfaithful := hgs.faithful g hg
    obtain ⟨as', bs', rfl, hbefore', hbehind'⟩ := (hgs.perm hp).split (hp.mem_iff.mpr hg) hw hword
    obtain ⟨as, bs, rfl, hbefore, hbehind⟩ := hgs.split hg hw hword
    exact choice_spelled_alike h hs htail hfaithful hw hword hbefore hbehind hbefore' hbehind'
  · have habsent : ∀ g ∈ gs, g.Unannounced (tokenAt input s.cursor) := by
      intro g hg
      obtain ⟨w, hw⟩ := hgs.worded g hg
      exact ⟨w, hw, Bool.eq_false_iff.mpr fun hc => hfound ⟨g, hg, w, hw, hc⟩⟩
    have habsent' : ∀ g ∈ gs', g.Unannounced (tokenAt input s'.cursor) :=
      fun g hg => hs.cursor ▸ habsent g (hp.mem_iff.mp hg)
    have hasked : asked gs ≠ [] := by
      obtain ⟨g, gs, rfl⟩ := List.exists_cons_of_ne_nil hne
      obtain ⟨w, hw⟩ := hgs.worded g List.mem_cons_self
      simp [asked, hw]
    have hperm : (asked gs).Perm (asked gs') := ((hp.filterMap word?).map _).symm
    rw [choice_asks h.asks habsent, choice_asks h.asks' habsent']
    refine htail _ _ ⟨hs.cursor, hs.depth, ?_⟩
    exact (hs.expecting hasked).record.trans (Failure.recordAll_perm hperm _ _)

end Choice

end Grammar

/-! Rules in another order -/

/-- An order of the alternatives of each rule whose alternatives ask for words. -/
structure Reordering where
  rootDecl : List (Grammar (Decl Nat))
  enumMember : List (Grammar (Decl Nat))
  classMember : List (Grammar (Decl Nat))
  stmt : Nat → List (Grammar (Stmt Nat))
  rootDecl_perm : rootDecl.Perm rootAlternatives
  enumMember_perm : enumMember.Perm enumAlternatives
  classMember_perm : classMember.Perm classAlternatives
  stmt_perm (pos : Nat) : (stmt pos).Perm (announcedStatements pos)

/-- What a rule stands for with its alternatives in that order. -/
def Reordering.production (o : Reordering) : (r : Rule) → Grammar r.Result
  | .rootDecl => rootDeclAmong o.rootDecl
  | .enumMember => enumMemberAmong o.enumMember
  | .classMember => classMemberAmong o.classMember
  | .stmt => stmtAmong o.stmt
  | r => r.production

/-- Runs a rule, with an order of alternatives chosen anew for each rule that is entered. -/
def Rule.runIn (order : Nat → State → Reordering) (input : Array Lexeme) (limits : Limits) :
    Nat → (r : Rule) → State → Reply r.Result
  | 0, _, s => ⟨.exhausted, s⟩
  | n + 1, r, s => ((order n s).production r).exec input limits (runIn order input limits n) s

/-- The order in which the language has them. -/
def Reordering.given : Reordering where
  rootDecl := rootAlternatives
  enumMember := enumAlternatives
  classMember := classAlternatives
  stmt := announcedStatements
  rootDecl_perm := .refl _
  enumMember_perm := .refl _
  classMember_perm := .refl _
  stmt_perm _ := .refl _

/-- The order in which the language has them, from the last to the first. -/
def Reordering.reversed : Reordering where
  rootDecl := rootAlternatives.reverse
  enumMember := enumAlternatives.reverse
  classMember := classAlternatives.reverse
  stmt pos := (announcedStatements pos).reverse
  rootDecl_perm := List.reverse_perm _
  enumMember_perm := List.reverse_perm _
  classMember_perm := List.reverse_perm _
  stmt_perm _ := List.reverse_perm _

theorem Reordering.production_given (r : Rule) : given.production r = r.production := by
  cases r <;> rfl

theorem Rule.runIn_given (n : Nat) :
    Rule.runIn (fun _ _ => .given) input limits n = Rule.run input limits n := by
  induction n with
  | zero => rfl
  | succ n ih =>
    funext r s
    unfold Rule.runIn Rule.run
    rw [ih, Reordering.production_given]

theorem Reordering.production_word {o : Reordering} {r : Rule} {word : String}
    (h : r.word? = some word) : o.production r = r.production := by
  cases r <;> first | rfl | cases h

namespace Grammar

/-! Level by level -/

section

variable {order : Nat → State → Reordering} {n : Nat} {s s' : State}

theorem paired
    (h : Likewise input (Rule.run input limits (n + 1)) (Rule.runIn order input limits (n + 1))) :
    Paired input (Rule.run input limits (n + 1)) (Rule.runIn order input limits (n + 1)) where
  toLikewise := h
  tracked := Rule.run_tracked (n + 1)
  past r word s hw hs := by
    obtain ⟨k, hk, hf⟩ := Rule.production_word hw
    unfold Rule.run
    rw [hk, exec_spelled hs]
    exact exec_beyond (Rule.run_tracked n) (hf s.cursor) (.inl (Nat.lt_succ_self s.cursor))
  asks := run_asks n
  asks' r word s hw hs := by
    obtain ⟨k, hk, -⟩ := Rule.production_word hw
    unfold Rule.runIn
    rw [Reordering.production_word hw, hk, exec_unspelled hs]

variable (h : Likewise input (Rule.run input limits n) (Rule.runIn order input limits n))
  (hs : ahead.Beside s s')

include h hs

theorem choice_run_alike {gs gs' tail : List (Grammar α)} (hgs : ToldApart gs) (hne : gs ≠ [])
    (hp : gs'.Perm gs) (htail : ∀ t t', ahead.Missed t t' →
      ahead.Alike (exec input limits (Rule.run input limits n) (choice tail) t)
        (exec input limits (Rule.runIn order input limits n) (choice tail) t')) :
    ahead.Alike (exec input limits (Rule.run input limits n) (choice (gs ++ tail)) s)
      (exec input limits (Rule.runIn order input limits n) (choice (gs' ++ tail)) s') := by
  cases n with
  | zero =>
    obtain ⟨g, gs, rfl⟩ := List.exists_cons_of_ne_nil hne
    obtain ⟨word, hw⟩ := hgs.worded g List.mem_cons_self
    rw [List.cons_append, exec_choice_cons, exec_worded_zero hw]
    exact .exhausted
  | succ n => exact choice_alike (paired h) hs htail hgs hne hp

/-- Modifiers and a choice, as a declaration at the top or a member has them. -/
theorem modified_alike {gs gs' : List (Grammar β)} (hgs : ToldApart gs) (hne : gs ≠ [])
    (hp : gs'.Perm gs) (f : Nat → List Modifier → β → α) :
    ahead.Alike
      (exec input limits (Rule.run input limits n)
        (do return f (← here) (← modifiers) (← choice gs)) s)
      (exec input limits (Rule.runIn order input limits n)
        (do return f (← here) (← modifiers) (← choice gs')) s') := by
  have hmodifiers : modifiers.Faithful :=
    ((Rule.production_faithful (r := .rootDecl) nofun).2 0).1
  rw [here_bind, here_bind, hs.cursor]
  refine (Likeness.exec_alike (fun _ _ _ _ ht => h.alike ht) hmodifiers hs).andThen
    fun ms t t' ht => ?_
  have hchoice : ahead.Alike (exec input limits (Rule.run input limits n) (choice (gs ++ [])) t)
      (exec input limits (Rule.runIn order input limits n) (choice (gs' ++ [])) t') :=
    choice_run_alike h ht hgs hne hp fun _ _ hm => .mismatch hm
  rw [List.append_nil, List.append_nil] at hchoice
  exact hchoice.andThen fun v u u' hu => .ok hu

/-- What a rule stands for goes the same way with its alternatives in another order. -/
theorem production_alike (o : Reordering) (r : Rule) :
    ahead.Alike (exec input limits (Rule.run input limits n) r.production s)
      (exec input limits (Rule.runIn order input limits n) (o.production r) s') := by
  have hexec {γ : Type} {g : Grammar γ} (hg : g.Faithful) {t t' : State} (ht : ahead.Beside t t') :
      ahead.Alike (exec input limits (Rule.run input limits n) g t)
        (exec input limits (Rule.runIn order input limits n) g t') :=
    Likeness.exec_alike (fun _ _ _ _ hq => h.alike hq) hg ht
  have hunchanged {r : Rule} (hr : r ≠ .ast) :
      ahead.Alike (exec input limits (Rule.run input limits n) r.production s)
        (exec input limits (Rule.runIn order input limits n) r.production s') :=
    hexec (Rule.production_faithful hr) hs
  cases r
  case ast =>
    have hmany : (many (call .rootDecl)).Faithful := faithful_many.mpr nofun
    change ahead.Alike (exec _ _ _ Grammar.ast s) (exec _ _ _ Grammar.ast s')
    unfold Grammar.ast
    rw [here_bind, here_bind, hs.cursor]
    refine (hexec hmany hs).andThen fun ds t t' ht => ?_
    have heof : ahead.Alike (exec input limits (Rule.run input limits n) (token .eof) t)
        (exec input limits (Rule.runIn order input limits n) (token .eof) t') :=
      (Likeness.expect_alike (List.cons_ne_nil _ _) ht).andThen fun l u u' hu => .ok hu
    exact heof.andThen fun l u u' hu => .ok hu
  case rootDecl =>
    exact modified_alike h hs rootAlternatives_apart nofun o.rootDecl_perm RootDecl.mk
  case enumMember =>
    exact modified_alike h hs enumAlternatives_apart nofun o.enumMember_perm EnumMember.mk
  case classMember =>
    exact modified_alike h hs classAlternatives_apart nofun o.classMember_perm ClassMember.mk
  case stmt =>
    change ahead.Alike (exec _ _ _ (stmtAmong announcedStatements) s)
      (exec _ _ _ (stmtAmong o.stmt) s')
    unfold stmtAmong
    rw [here_bind, here_bind, ← hs.cursor]
    refine choice_run_alike h hs (announcedStatements_apart _) nofun (o.stmt_perm _)
      fun t t' ht => hexec ?_ ht.beside
    exact faithful_choice.mpr ⟨⟨nofun, fun _ => trivial⟩, nofun⟩
  all_goals exact hunchanged nofun

end

/-- With alternatives in other orders all rules go the same way. -/
theorem run_likewise (order : Nat → State → Reordering) (n : Nat) :
    Likewise input (Rule.run input limits n) (Rule.runIn order input limits n) := by
  induction n with
  | zero => exact ⟨fun _ => .exhausted, fun _ _ _ _ _ => .exhausted⟩
  | succ n ih =>
    refine ⟨fun {r s s'} hs => production_alike ih hs (order n s') r, ?_⟩
    intro r word s s' hw hword hc hd hf
    obtain ⟨k, hk, hfaithful⟩ := Rule.production_word hw
    unfold Rule.run Rule.runIn
    rw [Reordering.production_word hw, hk, exec_spelled hword, exec_spelled (hc ▸ hword), hc]
    have hnext : ahead.Beside { s with cursor := s'.cursor + 1 }
        { s' with cursor := s'.cursor + 1 } := ⟨rfl, hd, hc ▸ hf⟩
    exact Likeness.exec_alike (fun _ _ _ _ ht => ih.alike ht) (hfaithful s'.cursor) hnext

end Grammar

/-! What is reported -/

/-- The error about a mismatch lists what was expected in alphabetical order. -/
theorem TokenStream.mismatch_same (ts : TokenStream) {f g : Failure} (h : f.Same g) :
    ts.mismatch f = ts.mismatch g := by
  obtain ⟨hi, hp⟩ := h
  have htotal (a b : String) : (decide (a ≤ b) || decide (b ≤ a)) = true := by
    simpa using String.le_total a b
  have htrans (a b c : String) (hab : decide (a ≤ b) = true) (hbc : decide (b ≤ c) = true) :
      decide (a ≤ c) = true :=
    decide_eq_true (String.le_trans (of_decide_eq_true hab) (of_decide_eq_true hbc))
  have hantisymm (a b : String) (hab : decide (a ≤ b) = true) (hba : decide (b ≤ a) = true) :
      a = b :=
    String.le_antisymm (of_decide_eq_true hab) (of_decide_eq_true hba)
  have hsorted : (f.expected.map Expectation.described).mergeSort (fun a b => decide (a ≤ b)) =
      (g.expected.map Expectation.described).mergeSort (fun a b => decide (a ≤ b)) :=
    List.Perm.eq_of_pairwise (fun a b _ _ => hantisymm a b)
      (List.pairwise_mergeSort htrans htotal _) (List.pairwise_mergeSort htrans htotal _)
      ((List.mergeSort_perm _ _).trans ((hp.map _).trans (List.mergeSort_perm _ _).symm))
  simp only [mismatch, hsorted, hi]

/-- For all tokens, every rule and every state. Each time a rule is entered, the alternatives for
declarations and members and the announced statements may stand in another order: the rule ends with
the same value, or with the same error at the same place with the same expectations, and at the same
token. -/
theorem order_irrelevant (order : Nat → State → Reordering) (ts : TokenStream) (r : Rule)
    (s : State) :
    let x := Rule.runIn order ts.lexemes .standard (openRules ts.lexemes) r s
    ts.result x.outcome x.state.failure = r.result ts s ∧
      x.state.cursor = (r.reply ts s).state.cursor := by
  intro x
  have hfinishes : (r.reply ts s).outcome ≠ .exhausted := Rule.run_openRules r s
  have halike : ahead.Alike (r.reply ts s) x :=
    (run_likewise order (openRules ts.lexemes)).alike ⟨rfl, rfl, .inl (.refl _)⟩
  unfold Rule.result
  generalize r.reply ts s = y at halike hfinishes ⊢
  clear_value x
  cases halike with
  | ok beside => exact ⟨rfl, beside.cursor.symm⟩
  | mismatch missed =>
    exact ⟨congrArg Except.error (ts.mismatch_same missed.record).symm, missed.cursor.symm⟩
  | fatal cursor => exact ⟨rfl, cursor.symm⟩
  | exhausted => exact absurd rfl hfinishes

/-- From the last alternative to the first: a soft word in the place of a name, and a declaration
that fails behind its word. -/
theorem order_irrelevant_reversed :
    let ts := TokenStream.ofTokens (unplaced [⟨.ident, "class"⟩, ⟨.punct, ";"⟩, ⟨.keyword, "enum"⟩])
    let run := Rule.runIn (fun _ _ => .reversed) ts.lexemes .standard (openRules ts.lexemes)
    (∃ v, ts.result (run .stmt .start).outcome (run .stmt .start).state.failure = .ok v ∧
      (run .stmt .start).state.cursor = 1) ∧
    let x := run .rootDecl { State.start with cursor := 2 }
    ts.result x.outcome x.state.failure =
      .error ⟨.unexpectedToken ["<ident>"] "EOF", .startOf defaultFile⟩ := by
  intro ts run
  have hread : (Rule.stmt.result ts .start).isOk = true := by decide +kernel
  have hcursor : (Rule.stmt.reply ts .start).state.cursor = 1 := by decide +kernel
  have hfault : Rule.rootDecl.result ts { State.start with cursor := 2 } =
      .error ⟨.unexpectedToken ["<ident>"] "EOF", .startOf defaultFile⟩ :=
    Except.eq_error (by decide +kernel)
  obtain ⟨v, hv⟩ := Except.exists_of_isOk hread
  obtain ⟨hvalue, hstop⟩ := order_irrelevant (fun _ _ => .reversed) ts .stmt .start
  obtain ⟨herror, -⟩ :=
    order_irrelevant (fun _ _ => .reversed) ts .rootDecl { State.start with cursor := 2 }
  exact ⟨⟨v, hvalue.trans hv, hstop.trans hcursor⟩, herror.trans hfault⟩

end Syntree
