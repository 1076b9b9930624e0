import Syntree.Proofs.Phrases
import Syntree.Proofs.Records

/-!
Rules that ask for a word first. Where it is not there, nothing comes of such a rule but a record
that the word was asked for; so at most one of several alternatives with words of their own goes
past the token where it starts.
-/

namespace Syntree

open Grammar

variable {α : Type} {input : Array Lexeme} {limits : Limits}
  {rules : (r : Rule) → State → Reply r.Result}

/-- The word or brace that a rule asks for first. -/
def Rule.word? : Rule → Option String
  | importDecl => some "import"
  | enumDecl => some "enum"
  | caseDecl => some "case"
  | classDecl => some "class"
  | initialiserDecl => some "init"
  | varDecl => some "let"
  | funcDecl => some "fn"
  | returnStmt => some "return"
  | ifStmt => some "if"
  | forStmt => some "for"
  | switchStmt => some "switch"
  | block => some "\x7b"
  | _ => none

theorem Rule.production_word {r : Rule} {word : String} (h : r.word? = some word) :
    ∃ k : Nat → Grammar r.Result,
      r.production = (here >>= fun pos => Grammar.literal word >>= fun _ => k pos) ∧
        ∀ pos, (k pos).Faithful := by
  have hr : r ≠ .ast := by
    rintro rfl
    cases h
  have hf := production_faithful hr
  cases r
  all_goals cases h
  all_goals exact ⟨_, rfl, fun pos => (hf.2 pos).2 ()⟩

namespace Grammar

/-- The word or brace that an alternative asks for first. -/
def word? : {α : Type} → Grammar α → Option String
  | _, bind g _ => g.word?
  | _, call r => r.word?
  | _, _ => none

/-- Whether an alternative asks for a word that the token `l` is not. -/
def Unannounced (l : Lexeme) (g : Grammar α) : Prop :=
  ∃ word, g.word? = some word ∧ l.spells word = false

/-- What has failed where none of some alternatives has found its word. -/
def asked (gs : List (Grammar α)) : List Expectation :=
  (gs.filterMap word?).map .literal

/-! Alternatives with words of their own -/

/-- Alternatives that each ask for a word of their own first. -/
structure ToldApart (gs : List (Grammar α)) : Prop where
  faithful : ∀ g ∈ gs, g.Faithful
  worded : ∀ g ∈ gs, ∃ word, g.word? = some word
  distinct : (gs.filterMap word?).Nodup

theorem faithful_of_choice {gs : List (Grammar α)} (h : (choice gs).Faithful) :
    ∀ g ∈ gs, g.Faithful := by
  cases gs with
  | nil => exact nofun
  | cons g gs => exact List.forall_mem_cons.mpr (faithful_choice.mp h)

namespace ToldApart

variable {gs gs' : List (Grammar α)} {g : Grammar α} {word : String}

theorem of_words (words : List String) (hf : ∀ g ∈ gs, g.Faithful)
    (hw : gs.map word? = words.map some) (hd : words.Nodup) : ToldApart gs where
  faithful := hf
  worded g hg := by
    have hm : g.word? ∈ words.map some := hw ▸ List.mem_map_of_mem hg
    obtain ⟨w, -, hw⟩ := List.mem_map.mp hm
    exact ⟨w, hw.symm⟩
  distinct := by
    have hwords : gs.filterMap word? = words := by
      have hmap : (gs.map word?).filterMap id = gs.filterMap word? := List.filterMap_map
      rw [← hmap, hw, List.filterMap_map]
      simp
    rwa [hwords]

theorem perm (h : ToldApart gs) (hp : gs'.Perm gs) : ToldApart gs' where
  faithful g hg := h.faithful g (hp.mem_iff.mp hg)
  worded g hg := h.worded g (hp.mem_iff.mp hg)
  distinct := (hp.filterMap word?).nodup_iff.mpr h.distinct

/-- Where one of them finds its word, the others do not find theirs. -/
theorem split (h : ToldApart gs) (hg : g ∈ gs) (hw : g.word? = some word) {l : Lexeme}
    (hl : l.spells word = true) :
    ∃ as bs, gs = as ++ g :: bs ∧ (∀ a ∈ as, a.Unannounced l) ∧ ∀ b ∈ bs, b.Unannounced l := by
  obtain ⟨as, bs, rfl⟩ := List.append_of_mem hg
  refine ⟨as, bs, rfl, List.forall_mem_append.mp fun a ha => ?_⟩
  have hd := h.distinct
  rw [List.filterMap_append, List.filterMap_cons_some hw, List.perm_middle.nodup_iff,
    ← List.filterMap_append] at hd
  obtain ⟨w, hwa⟩ := h.worded a (List.perm_middle.mem_iff.mpr (List.mem_cons_of_mem g ha))
  refine ⟨w, hwa, Bool.eq_false_iff.mpr fun hc => ?_⟩
  obtain rfl := Lexeme.spells_unique hc hl
  exact (List.nodup_cons.mp hd).1 (List.mem_filterMap.mpr ⟨a, ha, hwa⟩)

end ToldApart

theorem rootAlternatives_apart : ToldApart rootAlternatives := by
  obtain ⟨-, hmodifiers⟩ := (Rule.production_faithful (r := .rootDecl) nofun).2 0
  exact .of_words ["class", "import", "enum", "let", "fn"]
    (faithful_of_choice (hmodifiers []).1) rfl (by decide)

theorem enumAlternatives_apart : ToldApart enumAlternatives := by
  obtain ⟨-, hmodifiers⟩ := (Rule.production_faithful (r := .enumMember) nofun).2 0
  exact .of_words ["case", "let", "fn", "class", "enum", "init"]
    (faithful_of_choice (hmodifiers []).1) rfl (by decide)

theorem classAlternatives_apart : ToldApart classAlternatives := by
  obtain ⟨-, hmodifiers⟩ := (Rule.production_faithful (r := .classMember) nofun).2 0
  exact .of_words ["let", "fn", "class", "enum", "init"]
    (faithful_of_choice (hmodifiers []).1) rfl (by decide)

theorem announcedStatements_apart (pos : Nat) : ToldApart (announcedStatements pos) := by
  obtain ⟨-, hchoice⟩ := Rule.production_faithful (r := .stmt) nofun
  exact .of_words ["return", "if", "for", "switch", "\x7b", "let", "fn", "class", "enum"]
    (fun g hg => faithful_of_choice (hchoice pos) g (List.mem_append_left _ hg)) rfl (by decide)

/-! What a word decides -/

theorem exec_spelled {word : String} {k : Nat → Grammar α} {s : State}
    (hs : (tokenAt input s.cursor).spells word = true) :
    exec input limits rules (here >>= fun pos => literal word >>= fun _ => k pos) s =
      exec input limits rules (k s.cursor) { s with cursor := s.cursor + 1 } := by
  rw [here_bind, exec_bind, (literal_ok (u := ())).mpr ⟨hs, rfl⟩]
  rfl

theorem exec_unspelled {word : String} {k : Nat → Grammar α} {s : State}
    (hs : (tokenAt input s.cursor).spells word = false) :
    exec input limits rules (here >>= fun pos => literal word >>= fun _ => k pos) s =
      ⟨.mismatch, s.expecting [.literal word]⟩ := by
  rw [here_bind, exec_bind, literal_mismatch.mpr ⟨hs, rfl⟩]
  rfl

variable (input) in
/-- What is asked of rules: one that asks for a word first has looked at the word only, unless the
word is there. -/
def AsksFirst (rules : (r : Rule) → State → Reply r.Result) : Prop :=
  ∀ r word s, r.word? = some word → (tokenAt input s.cursor).spells word = false →
    rules r s = ⟨.mismatch, s.expecting [.literal word]⟩

theorem exec_asks (hu : AsksFirst input rules) {g : Grammar α} {word : String} {s : State}
    (hw : g.word? = some word) (hs : (tokenAt input s.cursor).spells word = false) :
    exec input limits rules g s = ⟨.mismatch, s.expecting [.literal word]⟩ := by
  induction g with
  | call r => exact hu r word s hw hs
  | bind g f ihg =>
    unfold exec
    rw [ihg hw]
    rfl
  | _ => cases hw

theorem exec_choice_cons (g : Grammar α) (gs : List (Grammar α)) (s : State) :
    exec input limits rules (choice (g :: gs)) s =
      (exec input limits rules g s).orElse limits s.cursor fun t =>
        exec input limits rules (choice gs) t := rfl

/-- Alternatives whose words are not there leave nothing but a record that they were asked for. -/
theorem choice_asks (hu : AsksFirst input rules) {gs tail : List (Grammar α)} {s : State}
    (hgs : ∀ g ∈ gs, g.Unannounced (tokenAt input s.cursor)) :
    exec input limits rules (choice (gs ++ tail)) s =
      exec input limits rules (choice tail) (s.expecting (asked gs)) := by
  induction gs generalizing s with
  | nil => rfl
  | cons g gs ih =>
    obtain ⟨⟨word, hw, hs⟩, hgs⟩ := List.forall_mem_cons.mp hgs
    have hasked : asked (g :: gs) = .literal word :: asked gs := by
      rw [asked, List.filterMap_cons_some hw]
      rfl
    rw [List.cons_append, exec_choice_cons, exec_asks hu hw hs, hasked]
    simp only [Reply.orElse, State.expecting, committed_self, Bool.false_eq_true, if_false]
    exact ih (s := s.expecting [.literal word]) hgs

/-! Runs -/

theorem run_asks (n : Nat) : AsksFirst input (Rule.run input limits (n + 1)) := by
  intro r word s hw hs
  obtain ⟨k, hk, -⟩ := Rule.production_word hw
  unfold Rule.run
  rw [hk, exec_unspelled hs]

theorem exec_worded_zero {g : Grammar α} {word : String} (hw : g.word? = some word) (s : State) :
    exec input limits (Rule.run input limits 0) g s = ⟨.exhausted, s⟩ := by
  induction g with
  | call r => rfl
  | bind g f ihg =>
    unfold exec
    rw [ihg hw]
    rfl
  | _ => cases hw

/-- What a choice has read was read by one of the alternatives, after those before it had asked for
nothing but their words. -/
theorem choice_read {gs : List (Grammar α)} (hgs : ToldApart gs) {n : Nat} {s t : State} {v : α}
    (h : exec input limits (Rule.run input limits n) (choice gs) s = ⟨.ok v, t⟩) :
    ∃ g ∈ gs, ∃ as : List (Grammar α),
      exec input limits (Rule.run input limits n) g (s.expecting (asked as)) = ⟨.ok v, t⟩ := by
  obtain ⟨g, hg, u, hu, hok⟩ := choice_ok h
  obtain ⟨word, hw⟩ := hgs.worded g hg
  cases n with
  | zero =>
    rw [exec_worded_zero hw] at hok
    cases hok
  | succ n =>
    cases hs : (tokenAt input s.cursor).spells word with
    | false =>
      rw [exec_asks (run_asks n) hw (hu.symm ▸ hs)] at hok
      cases hok
    | true =>
      obtain ⟨as, bs, rfl, hbefore, hbehind⟩ := hgs.split hg hw hs
      rw [choice_asks (run_asks n) hbefore] at h
      refine ⟨g, hg, as, ?_⟩
      rcases choice_cons_ok.mp h with h | ⟨t', -, -, h⟩
      · exact h
      · -- behind it no alternative finds its word
        obtain ⟨b, hb, u', hu', hok⟩ := choice_ok h
        obtain ⟨w, hw, hs⟩ := hbehind b hb
        rw [exec_asks (run_asks n) hw (hu'.symm ▸ hs)] at hok
        cases hok

end Grammar

end Syntree
