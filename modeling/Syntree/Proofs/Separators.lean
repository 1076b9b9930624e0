import Syntree.Proofs.Completeness
import Syntree.Proofs.Respacing
import Syntree.Proofs.Soundness

/-!
Optional separators carry no information: with each of them chosen anew, a source has the same tree
up to positions, unless it is then nested too deep.
-/

namespace Syntree

open Grammar (tokenAt)

/-- The same word with each of its separators chosen anew. -/
inductive Respaced : List Slot → List Slot → Prop where
  | nil : Respaced [] []
  | token (l : Lexeme) (rest : Respaced w w') : Respaced (.token l :: w) (.token l :: w')
  | separator (text : String) (b b' : Bool) (rest : Respaced w w') :
      Respaced (.separator text b :: w) (.separator text b' :: w')

variable {limits : Limits} {input : Array Lexeme} {p : Phrase} {v : p.Result} {i j : Nat}
  {w w' : List Slot}

theorem tokenAt_of_drop {l : Lexeme} {ls : List Lexeme} (h : input.toList.drop i = l :: ls) :
    tokenAt input i = l ∧ input.toList.drop (i + 1) = ls := by
  constructor
  · unfold tokenAt
    rw [← Array.getElem?_toList, ← List.head?_drop, h]
    rfl
  · rw [← List.tail_drop, h]
    rfl

/-- A word that is chosen anew and stands in an input has moved there. -/
theorem Respaced.moved (h : Respaced w w') {ls : List Lexeme}
    (hi : input.toList.drop i = Slot.yield w' ++ ls) :
    Moved input w i w' (i + (Slot.yield w').length) := by
  induction h generalizing i with
  | nil => exact .nil
  | token l rest ih =>
    obtain ⟨hl, hr⟩ := tokenAt_of_drop hi
    have hm := ih hr
    rw [Nat.add_assoc, Nat.add_comm 1] at hm
    exact .token hl hm
  | separator text b b' rest ih =>
    cases b' with
    | false => exact .absent (ih hi)
    | true =>
      obtain ⟨hl, hr⟩ := tokenAt_of_drop hi
      have hm := ih hr
      rw [Nat.add_assoc, Nat.add_comm 1] at hm
      exact .present hl hm

/-- Whether all separators of a phrase are commas and semicolons. -/
def Phrase.punctuated : Phrase → Bool
  | separator text => text == "," || text == ";"
  | optional p | after _ p | between _ _ p | star p | separated _ p | listed _ _ p | body p =>
    p.punctuated
  | _ => true

def Slot.punctuated : Slot → Bool
  | token _ => true
  | separator text _ => text == "," || text == ";"

theorem Slot.all_pinned (h : w.all punctuated = true) : (pinned w).all punctuated = true := by
  unfold pinned
  split
  · split
    · simp_all [punctuated]
    · exact h
  · exact h

theorem Derives.punctuated (h : Derives limits input p i w j v) (hp : p.punctuated = true) :
    w.all Slot.punctuated = true := by
  induction h with
  | separatorAbsent | separatorPresent => simpa [Slot.punctuated, Phrase.punctuated] using hp
  | exprStmt _ _ ih => exact Slot.all_pinned (ih rfl)
  | _ => simp_all only [Phrase.punctuated, Slot.punctuated, List.all_nil, List.all_cons,
      List.all_append, Bool.and_self, Bool.or_false, Bool.or_true, String.reduceBEq, BEq.rfl]

/-- Choosing separators anew puts no token into a word that scanning does not yield. -/
theorem Respaced.lawful (h : Respaced w w') (hs : w.all Slot.punctuated = true)
    (hl : ∀ l ∈ Slot.yield w, l.kind ≠ .eof ∧ l.Lawful) :
    ∀ l ∈ Slot.yield w', l.kind ≠ .eof ∧ l.Lawful := by
  induction h with
  | nil => exact hl
  | token l rest ih =>
    simp only [Slot.yield_token, List.forall_mem_cons] at hl ⊢
    exact ⟨hl.1, ih (by simpa [Slot.punctuated] using hs) hl.2⟩
  | separator text b b' rest ih =>
    simp only [List.all_cons, Bool.and_eq_true] at hs
    have hrest := ih hs.2 fun l hm => hl l (List.mem_append_right _ hm)
    intro l hm
    rcases List.mem_append.mp hm with hm | hm
    · cases b' with
      | false => cases hm
      | true =>
        have ht : text = "," ∨ text = ";" := by simpa [Slot.punctuated] using hs.1
        rw [List.mem_singleton.mp hm]
        refine ⟨by simp, fun _ _ => ?_⟩
        rcases ht with rfl | rfl <;> rfl
    · exact hrest l hm

theorem TokenStream.ofTokens_lexemes {tokens : List Token} {ls : List Lexeme}
    (h : tokens.map (·.toLexeme) = ls ++ [.eof]) :
    (TokenStream.ofTokens tokens).lexemes.toList = ls ++ [.eof] := by
  obtain ⟨front, back, rfl, rfl, hb⟩ := List.map_eq_append_iff.mp h
  obtain ⟨last, rfl, hlast⟩ := List.map_eq_singleton_iff.mp hb
  have hk : last.kind = .eof := congrArg Lexeme.kind hlast
  have ht : (ofTokens (front ++ [last])).tokens = (front ++ [last]).toArray :=
    ofTokens_tokens (by simp [hk])
  rw [lexemes, ht, Array.toList_map]
  exact h

/-- A whole word that stands in another input, with its separators chosen anew, is derived there. -/
theorem Derives.ast_again {a : Ast Nat} {input' : Array Lexeme} (hi : LawfulInput input)
    (hl : limits.lookahead = some 1) (h : Derives limits input (.rule .ast) i w j a)
    (hr : Respaced w w') (hw : input'.toList = Slot.yield w' ++ [.eof]) :
    ∃ j' a', Derives limits input' (.rule .ast) 0 w' j' a' ∧
      a'.map (fun _ => 0) = a.map fun _ => 0 := by
  cases h with
  | ast declarations ended =>
    have hm : Moved input' w 0 w' (0 + (Slot.yield w').length) := hr.moved (by simpa using hw)
    rw [Nat.zero_add] at hm
    obtain ⟨ds, hd, he⟩ := (declarations.again hi hl rfl).derive hm
    have hend : tokenAt input' (Slot.yield w').length = .eof := by
      unfold tokenAt
      rw [← Array.getElem?_toList, hw]
      simp
    refine ⟨_, _, .ast hd (by rw [hend]; rfl), ?_⟩
    exact congrArg (Ast.mk 0) he

/-- Trees that are equal with positions put to the start are equal without positions. -/
theorem Ast.unplaced_eq {π ρ : Type} {a b : Ast Nat} (h : b.map (fun _ => 0) = a.map fun _ => 0)
    (f : Nat → π) (g : Nat → ρ) : (b.map f).map (fun _ => ()) = (a.map g).map fun _ => () := by
  have hu := congrArg (Ast.map fun _ => ()) h
  simpa only [Ast.map_map, Function.comp_def] using hu

/-- For every source with a tree, and every choice of which optional separators are there: the tokens
that are left have the same tree up to positions, or they are nested too deep. The places for such
separators are those of any derivation of the source, and there is one. -/
theorem separators_free {file source : String} {tokens : List Token} {a : Ast Position}
    (h : tokenize file source = .ok tokens) (ha : (TokenStream.ofTokens tokens).tree = .ok a) :
    let ts := TokenStream.ofTokens tokens
    (∃ b w j, Derives .standard ts.lexemes (.rule .ast) 0 w j b) ∧
    ∀ b w j, Derives .standard ts.lexemes (.rule .ast) 0 w j b →
      a = b.map ts.position ∧ ts.lexemes.toList = Slot.yield w ++ [.eof] ∧
      ∀ w' tokens', Respaced w w' → tokens'.map (·.toLexeme) = Slot.yield w' ++ [.eof] →
        (∃ a', (TokenStream.ofTokens tokens').tree = .ok a' ∧
          a'.map (fun _ => ()) = a.map fun _ => ()) ∨
        ∃ limit p, (TokenStream.ofTokens tokens').tree = .error ⟨.nestingTooDeep limit, p⟩ := by
  intro ts
  have hi : LawfulInput ts.lexemes := tokenize_lawful h
  constructor
  · obtain ⟨b, s, hs, -⟩ := TokenStream.tree_ok ha
    rw [TokenStream.reply_eq] at hs
    obtain ⟨w, hw⟩ := Rule.run_sound hi _ .ast .start b s hs
    exact ⟨b, w, s.cursor, hw⟩
  · intro b w j hd
    obtain ⟨hword, -⟩ := Derives.ast_word hi hd
    have hab : a = b.map ts.position := by
      rcases TokenStream.tree_of_derives hi hd with hb | ⟨limit, p, hp⟩
      · rw [ha] at hb
        exact Except.ok.inj hb
      · rw [ha] at hp
        cases hp
    refine ⟨hab, hword, fun w' tokens' hr ht => ?_⟩
    have hword' := TokenStream.ofTokens_lexemes ht
    have hi' : LawfulInput (TokenStream.ofTokens tokens').lexemes := by
      obtain ⟨ls, hls, hlaw⟩ := hi
      obtain rfl : ls = Slot.yield w := List.append_cancel_right (hls.symm.trans hword)
      exact ⟨_, hword', hr.lawful (hd.punctuated rfl) hlaw⟩
    obtain ⟨j', b', hd', he⟩ := hd.ast_again hi rfl hr hword'
    rcases TokenStream.tree_of_derives hi' hd' with hb | hp
    · refine .inl ⟨_, hb, ?_⟩
      rw [hab]
      exact Ast.unplaced_eq he _ _
    · exact .inr hp

theorem separators_free_enum :
    ∃ tokens tokens' a a', tokenize "f" "enum e\x7bcase a;\x7d;" = .ok tokens ∧
      tokenize "f" "enum e\x7bcase a\x7d" = .ok tokens' ∧
      (TokenStream.ofTokens tokens).tree = .ok a ∧ (TokenStream.ofTokens tokens').tree = .ok a' ∧
      a'.map (fun _ => ()) = a.map fun _ => () := by
  have hparse : (parse "f" "enum e\x7bcase a;\x7d;").isOk = true := by decide +kernel
  have hparse' : (parse "f" "enum e\x7bcase a\x7d").isOk = true := by decide +kernel
  obtain ⟨a, ha⟩ := Except.exists_of_isOk hparse
  obtain ⟨tokens, ht, ha⟩ := parse_ok ha
  obtain ⟨a', ha'⟩ := Except.exists_of_isOk hparse'
  obtain ⟨tokens', ht', ha'⟩ := parse_ok ha'
  have hls : (tokenize "f" "enum e\x7bcase a;\x7d;").toOption.map (·.map (·.toLexeme)) =
      some ([⟨.keyword, "enum"⟩, ⟨.ident, "e"⟩, ⟨.punct, "\x7b"⟩, ⟨.keyword, "case"⟩, ⟨.ident, "a"⟩,
        ⟨.punct, ";"⟩, ⟨.punct, "\x7d"⟩, ⟨.punct, ";"⟩] ++ [.eof]) := by decide +kernel
  have hls' : (tokenize "f" "enum e\x7bcase a\x7d").toOption.map (·.map (·.toLexeme)) =
      some ([⟨.keyword, "enum"⟩, ⟨.ident, "e"⟩, ⟨.punct, "\x7b"⟩, ⟨.keyword, "case"⟩, ⟨.ident, "a"⟩,
        ⟨.punct, "\x7d"⟩] ++ [.eof]) := by decide +kernel
  rw [ht] at hls
  rw [ht'] at hls'
  have hd : ∃ b, Derives .standard (TokenStream.ofTokens tokens).lexemes (.rule .ast) 0
      [.token ⟨.keyword, "enum"⟩, .token ⟨.ident, "e"⟩, .token ⟨.punct, "\x7b"⟩,
        .token ⟨.keyword, "case"⟩, .token ⟨.ident, "a"⟩, .separator ";" true,
        .token ⟨.punct, "\x7d"⟩, .separator ";" true] 8 b := by
    rw [Array.ext' (TokenStream.ofTokens_lexemes (Option.some.inj hls))]
    have hd : Derives .standard #[⟨.keyword, "enum"⟩, ⟨.ident, "e"⟩, ⟨.punct, "\x7b"⟩,
        ⟨.keyword, "case"⟩, ⟨.ident, "a"⟩, ⟨.punct, ";"⟩, ⟨.punct, "\x7d"⟩, ⟨.punct, ";"⟩, .eof]
        (.rule .ast) 0 _ _ _ :=
      .ast (.starCons (.rootDecl .modifiersNil (.rootEnum
        (.enumDecl (.literal rfl) (.typeDecl (.token (by simp) rfl) .optionalNone)
          (.between (.literal rfl)
            (.body (.separated (.enumMember .modifiersNil (.caseKind (.caseDecl (.literal rfl)
              (.token (by simp) rfl) .optionalNone))) .starNil) (.separatorPresent rfl))
            (.literal rfl)))
        (.separatorPresent rfl))) .starNil) rfl
    exact ⟨_, hd⟩
  obtain ⟨b, hd⟩ := hd
  refine ⟨tokens, tokens', a, a', ht, ht', ha, ha', ?_⟩
  obtain ⟨-, -, hfree⟩ := (separators_free ht ha).2 b _ 8 hd
  rcases hfree _ tokens' (.token _ (.token _ (.token _ (.token _ (.token _ (.separator _ _ false
    (.token _ (.separator _ _ false .nil)))))))) (Option.some.inj hls') with
    ⟨c, hc, he⟩ | ⟨limit, p, hp⟩
  · rw [ha'] at hc
    cases hc
    exact he
  · rw [ha'] at hp
    cases hp

end Syntree
