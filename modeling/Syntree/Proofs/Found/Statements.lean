import Syntree.Proofs.Found

/-!
Statements are found.
-/

namespace Syntree

open Grammar

variable {limits₀ limits : Limits} {room : Nat} {input : Array Lexeme} {i j k l : Nat}

theorem found_block (hi : LawfulInput input) {ss : List (Stmt Nat)}
    (statements : (Phrase.between "\x7b" "\x7d" (.body (.rule .stmt))).Found limits room input
      i ss j) :
    (Phrase.rule .block).Found limits (room + 1) input i ⟨i, ss⟩ j := by
  refine ⟨fun _ => reads_rule fun n => ?_, trivial⟩
  obtain ⟨hopen, k, hbody, hclose, rfl⟩ := statements
  have hb : (Phrase.body (.rule .stmt)).Halts ss (tokenAt input k) (tokenAt input (k + 1)) := by
    rw [hi.spelt hclose]
    exact halts_body rfl rfl rfl (fun _ => rfl) (fun _ _ => rfl)
  exact reads_bind (reads_here i) (reads_bind (reads_literal hopen)
    (reads_bind (reads_nested (hbody.reads hi hb n))
      (reads_bind (reads_literal hclose) (reads_pure _ _))))

theorem found_returnStmt {e : Option (Expr Nat)} (mark : (tokenAt input i).spells "return" = true)
    (value : (Phrase.optional (.rule .expr)).Found limits room input (i + 1) e j) :
    (Phrase.rule .returnStmt).Found limits room input i ⟨i, e⟩ j := by
  refine ⟨fun hh => reads_rule fun n => ?_, trivial⟩
  simp only [Rule.halts, Bool.and_eq_true, Bool.not_eq_true'] at hh
  have he : (Phrase.optional (.rule .expr)).Halts e (tokenAt input j) (tokenAt input (j + 1)) := by
    cases e with
    | none => exact ⟨rfl, hh.2⟩
    | some e => exact hh.1
  exact reads_bind (reads_here i) (reads_bind (reads_literal mark)
    (reads_bind (value he n) (reads_pure _ _)))

theorem found_ifStmt (hi : LawfulInput input) {e : Expr Nat} {a : Block Nat} {b : Option (Block Nat)}
    {m : Nat} (mark : (tokenAt input i).spells "if" = true)
    (condition : (Phrase.rule .expr).Found limits room input (i + 1) e j)
    (brace : (tokenAt input j).spells "\x7b" = true)
    (main : (Phrase.rule .block).Found limits room input j a k)
    (otherwise : (Phrase.optional (.after "else" (.rule .block))).Found limits room input k b m) :
    (Phrase.rule .ifStmt).Found limits room input i ⟨i, e, a, b⟩ m := by
  refine ⟨fun hh => reads_rule fun n => ?_, trivial⟩
  have he : Rule.expr.halts e (tokenAt input j) (tokenAt input (j + 1)) = true := by
    rw [hi.spelt brace]
    rfl
  have hb : (Phrase.optional (.after "else" (.rule .block))).Halts b (tokenAt input m)
      (tokenAt input (m + 1)) := by
    cases b with
    | none =>
      intro hc
      simp [Rule.halts, hc] at hh
    | some b => rfl
  exact reads_bind (reads_here i) (reads_bind (reads_literal mark) (reads_bind (condition.1 he n)
    (reads_bind (main.1 rfl n) (reads_bind (otherwise hb n) (reads_pure _ _)))))

theorem found_forStmt (hi : LawfulInput input) {t : Reference Nat} {e : Expr Nat} {a : Block Nat}
    (mark : (tokenAt input i).spells "for" = true)
    (target : (Phrase.rule .reference).Found limits room input (i + 1) t j)
    (inside : (tokenAt input j).spells "in" = true)
    (source : (Phrase.rule .expr).Found limits room input (j + 1) e k)
    (brace : (tokenAt input k).spells "\x7b" = true)
    (body : (Phrase.rule .block).Found limits room input k a l) :
    (Phrase.rule .forStmt).Found limits room input i ⟨i, t, e, a⟩ l := by
  refine ⟨fun _ => reads_rule fun n => ?_, trivial⟩
  have ht : Rule.reference.halts t (tokenAt input j) (tokenAt input (j + 1)) = true := by
    rw [hi.spelt inside]
    rfl
  have he : Rule.expr.halts e (tokenAt input k) (tokenAt input (k + 1)) = true := by
    rw [hi.spelt brace]
    rfl
  exact reads_bind (reads_here i) (reads_bind (reads_literal mark) (reads_bind (target.1 ht n)
    (reads_bind (reads_literal inside) (reads_bind (source.1 he n)
      (reads_bind (body.1 rfl n) (reads_pure _ _))))))

theorem Lexeme.endsCase_cases {a : Lexeme} (ha : a.Lawful) (h : a.endsCase = true) :
    a = ⟨.punct, "\x7d"⟩ ∨ a = ⟨.keyword, "case"⟩ ∨ a = ⟨.keyword, "default"⟩ := by
  simp only [Lexeme.endsCase, Bool.or_eq_true] at h
  rcases h with (h | h) | h
  · exact .inl (Lexeme.eq_of_spells ha h)
  · exact .inr (.inl (Lexeme.eq_of_spells ha h))
  · exact .inr (.inr (Lexeme.eq_of_spells ha h))

theorem found_switchStmt (hi : LawfulInput input) {e : Expr Nat} {cs : List (CaseStmt Nat)}
    (mark : (tokenAt input i).spells "switch" = true)
    (target : (Phrase.rule .expr).Found limits room input (i + 1) e j)
    (cases : (Phrase.between "\x7b" "\x7d" (.star (.rule .caseStmt))).Found limits room input
      j cs k) :
    (Phrase.rule .switchStmt).Found limits room input i ⟨i, e, cs⟩ k := by
  refine ⟨fun _ => reads_rule fun n => ?_, trivial⟩
  obtain ⟨hopen, m, hcases, hclose, rfl⟩ := cases
  have he : Rule.expr.halts e (tokenAt input j) (tokenAt input (j + 1)) = true := by
    rw [hi.spelt hopen]
    rfl
  have hc : (Phrase.star (.rule .caseStmt)).Halts cs (tokenAt input m) (tokenAt input (m + 1)) := by
    rw [hi.spelt hclose]
    refine ⟨⟨rfl, rfl⟩, fun v _ => rfl, fun v _ a b _ hs => ?_⟩
    simp only [Phrase.starts, Rule.starts, Bool.or_eq_true] at hs
    rcases hs with hs | hs <;> simp [Phrase.Halts, Rule.halts, Lexeme.endsCase, hs]
  exact reads_bind (reads_here i) (reads_bind (reads_literal mark) (reads_bind (target.1 he n)
    (reads_bind (reads_literal hopen) (reads_bind (reads_many (hcases hc n))
      (reads_bind (reads_literal hclose) (reads_pure _ _))))))

theorem found_caseStmt (hi : LawfulInput input) {c : Option (CaseSelect Nat)}
    {ss : List (Stmt Nat)} (selector : Phrase.caseHead.Found limits room input i c j)
    (mark : (tokenAt input j).spells ":" = true)
    (body : (Phrase.body (.rule .stmt)).Found limits room input (j + 1) ss k) :
    (Phrase.rule .caseStmt).Found limits room input i ⟨i, c, ss⟩ k := by
  refine ⟨fun hh => reads_rule fun n => ?_, trivial⟩
  have hc : (tokenAt input j).endsExpr = true := by
    rw [hi.spelt mark]
    rfl
  have hb : (Phrase.body (.rule .stmt)).Halts ss (tokenAt input k) (tokenAt input (k + 1)) := by
    rcases Lexeme.endsCase_cases (hi.lawful k) hh with hk | hk | hk
    all_goals
      rw [hk]
      exact halts_body rfl rfl rfl (fun _ => rfl) (fun _ _ => rfl)
  exact reads_bind (reads_here i) (reads_bind (selector hc n) (reads_bind (reads_literal mark)
    (reads_bind (body.reads hi hb n) (reads_pure _ _))))

theorem found_defaultHead (mark : (tokenAt input i).spells "default" = true) :
    Phrase.caseHead.Found limits room input i none (i + 1) :=
  fun _ _ => reads_choice_head (reads_bind (reads_literal mark) (reads_pure _ _))

theorem found_selectHead (hi : LawfulInput input) {c : CaseSelect Nat}
    (part : (Phrase.after "case" (.rule .caseSelect)).Found limits room input i c j) :
    Phrase.caseHead.Found limits room input i (some c) j := by
  intro hh n
  obtain ⟨hm, hc⟩ := part
  have hd : (tokenAt input i).spells "default" = false := by
    rw [hi.spelt hm]
    rfl
  exact reads_choice_tail (stops_bind (stops_literal hd)).fails
    (reads_choice_head (reads_bind (reads_literal hm) (reads_bind (hc.1 hh n) (reads_pure _ _))))

theorem found_enumSelect {c : EnumCase Nat}
    (part : (Phrase.rule .enumCase).Found limits room input i c j) :
    (Phrase.rule .caseSelect).Found limits room input i (.enumCase i c) j := by
  refine ⟨fun hh => reads_rule fun n => ?_, trivial⟩
  have hc : Rule.enumCase.halts c (tokenAt input j) (tokenAt input (j + 1)) = true := by
    simp only [Rule.halts, Lexeme.endsExpr, Lexeme.startsSelector, Bool.and_eq_true,
      Bool.not_eq_true', Bool.or_eq_false_iff] at hh ⊢
    exact hh.1.2
  exact reads_bind (reads_here i) (reads_choice_head (reads_bind (part.1 hc n) (reads_pure _ _)))

theorem found_exprSelect (hi : LawfulInput input) {e : Expr Nat}
    (first : (tokenAt input i).startsExpr = true)
    (part : (Phrase.rule .expr).Found limits room input i e j) :
    (Phrase.rule .caseSelect).Found limits room input i (.expr i e) j := by
  refine ⟨fun hh => reads_rule fun n => ?_, trivial⟩
  have hd : Rule.enumCase.starts (tokenAt input i) = false := not_spells (hi.lawful i) first "." rfl
  exact reads_bind (reads_here i)
    (reads_skip rfl hd (reads_choice_head (reads_bind (part.1 hh n) (reads_pure _ _))))

theorem found_enumCase {x : String} {y : Option String}
    (mark : (tokenAt input i).spells "." = true)
    (variant : (Phrase.token .ident).Found limits room input (i + 1) x j)
    (binding : (Phrase.optional (.between "(" ")" (.token .ident))).Found limits room input j y k) :
    (Phrase.rule .enumCase).Found limits room input i ⟨i, x, y⟩ k := by
  refine ⟨fun hh => reads_rule fun n => ?_, trivial⟩
  have hb : (Phrase.optional (.between "(" ")" (.token .ident))).Halts y (tokenAt input k)
      (tokenAt input (k + 1)) := by
    cases y with
    | none => exact ⟨rfl, by simpa [Rule.halts, Phrase.starts] using hh⟩
    | some => exact fun _ _ _ _ => trivial
  exact reads_bind (reads_here i) (reads_bind (reads_literal mark)
    (reads_bind (variant trivial n) (reads_bind (binding hb n) (reads_pure _ _))))

/-! Alternatives of a statement -/

section Stmt

/-- What ends a statement. -/
theorem stmt_ends (hi : LawfulInput input) {v : Stmt Nat} {b : Lexeme}
    (hh : Rule.stmt.halts v (tokenAt input j) b = true) :
    tokenAt input j = ⟨.punct, ";"⟩ ∨ tokenAt input j = ⟨.punct, "\x7d"⟩ ∨
      tokenAt input j = ⟨.keyword, "case"⟩ ∨ tokenAt input j = ⟨.keyword, "default"⟩ := by
  simp only [Rule.halts, Bool.or_eq_true] at hh
  rcases hh with hj | hj
  · exact .inl (hi.spelt hj)
  · exact .inr (Lexeme.endsCase_cases (hi.lawful j) hj)

/-- Each alternative of a statement halts before what ends the statement. -/
theorem halts_stmt (hi : LawfulInput input) {r : Rule} {v : Stmt Nat} {u : r.Result} {b : Lexeme}
    (hh : Rule.stmt.halts v (tokenAt input j) b = true)
    (hr : r.halts u ⟨.punct, ";"⟩ b = true ∧ r.halts u ⟨.punct, "\x7d"⟩ b = true ∧
      r.halts u ⟨.keyword, "case"⟩ b = true ∧ r.halts u ⟨.keyword, "default"⟩ b = true) :
    r.halts u (tokenAt input j) b = true := by
  obtain ⟨hsemi, hbrace, hcase, hdefault⟩ := hr
  rcases stmt_ends hi hh with hj | hj | hj | hj
  all_goals
    rw [hj]
    assumption

/-- The rules of statements that a word or a brace announces, in the order in which they are
tried. -/
def announced : List ((r : Rule) × (Nat → r.Result → Stmt Nat)) :=
  [⟨.returnStmt, .ret⟩, ⟨.ifStmt, .cond⟩, ⟨.forStmt, .loop⟩, ⟨.switchStmt, .switch⟩,
    ⟨.block, .block⟩, ⟨.varDecl, .varDecl⟩, ⟨.funcDecl, .funcDecl⟩, ⟨.classDecl, .classDecl⟩,
    ⟨.enumDecl, .enumDecl⟩]

theorem announcedStatements_eq (pos : Nat) :
    announcedStatements pos = announced.map fun q => do return q.2 pos (← call q.1) := rfl

/-- A statement is read by the rule that its first token announces: those before it start with
something else. -/
theorem found_announced (hi : LawfulInput input) {r : Rule} {f : Nat → r.Result → Stmt Nat}
    {v : r.Result} {text : String} (m : Nat) (at_m : announced[m]? = some ⟨r, f⟩)
    (first : (tokenAt input i).spells text = true)
    (others : ∀ q ∈ announced.take m, q.1.starts ⟨Lexical.kindOf text, text⟩ = false)
    (hr : ∀ b, r.halts v ⟨.punct, ";"⟩ b = true ∧ r.halts v ⟨.punct, "\x7d"⟩ b = true ∧
      r.halts v ⟨.keyword, "case"⟩ b = true ∧ r.halts v ⟨.keyword, "default"⟩ b = true)
    (part : (Phrase.rule r).Found limits room input i v j) :
    (Phrase.rule .stmt).Found limits room input i (f i v) j := by
  refine ⟨fun hh => reads_rule fun n => ?_, trivial⟩
  have hp : Reads input limits (room + 1) (Rule.run input limits n) (do return f i (← call r)) i
      (f i v) j :=
    reads_bind (part.1 (halts_stmt hi hh (hr _)) n) (reads_pure _ _)
  obtain ⟨hm, hq⟩ := List.getElem?_eq_some_iff.mp at_m
  have hsplit : announced = announced.take m ++ ⟨r, f⟩ :: announced.drop (m + 1) := by
    rw [← hq, ← List.drop_eq_getElem_cons hm, List.take_append_drop]
  refine reads_bind (reads_here i) ?_
  rw [announcedStatements_eq, hsplit, List.map_append, List.map_cons, List.append_assoc,
    List.cons_append]
  refine reads_choice (fun g hg => ?_) hp
  obtain ⟨q, hq, rfl⟩ := List.mem_map.mp hg
  exact fails_bind (fails_call n (by rw [hi.spelt first]; exact others q hq))

/-- Behind a brace that a comma follows there is no block. One construct is opened behind the brace,
and one more to find that there is no statement. -/
theorem block_fails (hi : LawfulInput input) (hl : limits.lookahead = some 1) (n : Nat)
    (hb : (tokenAt input i).spells "\x7b" = true)
    (hc : (tokenAt input (i + 1)).spells "," = true) :
    Fails input limits (room + 2) (Rule.run input limits n) (call .block) i := by
  have hs : Rule.stmt.starts (tokenAt input (i + 1)) = false := by
    rw [hi.spelt hc]
    rfl
  have he : (tokenAt input (i + 1)).spells "\x7d" = false := by
    rw [hi.spelt hc]
    rfl
  have hbody (n : Nat) : Reads input limits (room + 1) (Rule.run input limits n) statements (i + 1)
      [] (i + 1) :=
    reads_bind (reads_bind (reads_attempt_none (fails_bind (fails_call n hs)))
      (reads_pure _ _)) (reads_pure _ _)
  exact (stops_rule (fun n => stops_after (reads_here i) (stops_after (reads_literal hb)
    (stops_after (reads_nested (hbody n)) (stops_bind (stops_literal he))))) n).fails_second hl

/-- Behind the word `class` that no name follows there is no class. -/
theorem class_fails (hl : limits.lookahead = some 1) (n : Nat)
    (hc : (tokenAt input i).spells "class" = true)
    (hk : (tokenAt input (i + 1)).kind ≠ .ident) :
    Fails input limits (room + 1) (Rule.run input limits n) (call .classDecl) i := by
  have ht (n : Nat) : Stops input limits (room + 1) (Rule.run input limits n) (call .typeDecl)
      (i + 1) (i + 1) :=
    stops_call n (by simpa [Rule.starts] using hk)
  exact (stops_rule (fun n => stops_after (reads_here i) (stops_after (reads_literal hc)
    (stops_bind (ht n)))) n).fails_second hl

/-- Where an expression starts, the statements that a word or a brace announces are given up. -/
theorem announced_fails (hi : LawfulInput input) (hl : limits.lookahead = some 1) (n : Nat)
    (first : (tokenAt input i).startsExpr = true)
    (ret : (tokenAt input i).spells "return" = false)
    (block : Fails input limits (room + 1) (Rule.run input limits n) (call .block) i)
    (second : (tokenAt input i).spells "class" = true → (tokenAt input (i + 1)).kind ≠ .ident) :
    ∀ g ∈ announcedStatements i, Fails input limits (room + 1) (Rule.run input limits n) g i := by
  intro g hg
  rw [announcedStatements_eq] at hg
  obtain ⟨q, hq, rfl⟩ := List.mem_map.mp hg
  refine fails_bind ?_
  have hword := not_spells (hi.lawful i) first
  simp only [announced, List.mem_cons, List.not_mem_nil, or_false] at hq
  rcases hq with rfl | rfl | rfl | rfl | rfl | rfl | rfl | rfl | rfl
  · exact fails_call n ret
  · exact fails_call n (hword "if" rfl)
  · exact fails_call n (hword "for" rfl)
  · exact fails_call n (hword "switch" rfl)
  · exact block
  · exact fails_call n (hword "let" rfl)
  · exact fails_call n (hword "fn" rfl)
  · cases hc : (tokenAt input i).spells "class" with
    | false => exact fails_call n hc
    | true => exact class_fails hl n hc (second hc)
  · exact fails_call n (hword "enum" rfl)

theorem found_exprStmt (hi : LawfulInput input) (hl : limits.lookahead = some 1) {e : Expr Nat}
    (opens : limits.opens (tokenAt input i) (tokenAt input (i + 1)))
    (first : (tokenAt input i).startsExpr = true)
    (second : (tokenAt input i).kind = .ident → i + 1 = j ∨ (tokenAt input (i + 1)).kind ≠ .ident)
    (part : (Phrase.rule .expr).Found limits (room + 1) input i e j) :
    (Phrase.rule .stmt).Found limits (room + 1) input i (.expression i e) j := by
  refine ⟨fun hh => reads_rule fun n => ?_, trivial⟩
  have hp := part.1 (halts_stmt hi hh ⟨rfl, rfl, rfl, rfl⟩) n
  have hblock : Fails input limits (room + 2) (Rule.run input limits n) (call .block) i := by
    cases hb : (tokenAt input i).spells "\x7b" with
    | false => exact fails_call n hb
    | true => exact block_fails hi hl n hb (opens.2 hl hb)
  refine reads_bind (reads_here i) (reads_choice
    (announced_fails hi hl n first opens.1 hblock fun hc => ?_) (reads_bind hp (reads_pure _ _)))
  rcases second ((hi.lawful i).kind_eq hc) with rfl | hk
  · rcases stmt_ends hi hh with hj | hj | hj | hj <;> simp [hj]
  · exact hk

end Stmt

end Syntree
