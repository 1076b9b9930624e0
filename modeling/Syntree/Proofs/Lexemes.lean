import Syntree.Parse

/-!
What is known of the tokens that scanning yields, whatever the source: the value of a token that is
no string decides its kind, and only the last token is the end of the input.
-/

namespace Syntree

namespace Lexical

open Text

variable {cs : List Char} {kind : TokenKind} {extra : Nat}

theorem nameAt_starts (cs : List Char) : nameAt cs <+: cs := by
  cases cs with
  | nil => exact List.prefix_refl _
  | cons c cs =>
    simp only [nameAt]
    split
    · exact List.cons_prefix_cons.mpr ⟨rfl, List.takeWhile_prefix _⟩
    · exact List.nil_prefix

/-- A rule that matched is one of the table, and its match is the token. -/
theorem classify_rule (h : classify cs = some (kind, extra)) :
    ∃ rule, (kind, rule) ∈ rules ∧ rule cs = extra + 1 := by
  obtain ⟨⟨k, rule⟩, hm, hr⟩ := List.exists_of_findSome?_eq_some h
  refine ⟨rule, ?_⟩
  cases hn : rule cs with
  | zero => simp [hn] at hr
  | succ n =>
    simp only [hn, Option.some.injEq, Prod.mk.injEq] at hr
    obtain ⟨rfl, rfl⟩ := hr
    exact ⟨hm, rfl⟩

theorem classify_ne_eof (h : classify cs = some (kind, extra)) : kind ≠ .eof := by
  obtain ⟨rule, hm, -⟩ := classify_rule h
  rintro rfl
  simp [rules] at hm

/-- The rules for reserved words come before the one for names. -/
theorem classify_ident (h : classify cs = some (.ident, extra)) :
    reserved modifierWords cs = 0 ∧ reserved keywordWords cs = 0 := by
  simp only [classify, rules, List.findSome?_cons, List.findSome?_nil] at h
  grind

theorem ident_text (h : ident cs = extra + 1) : cs.take (extra + 1) = nameAt cs := by
  have hp := List.prefix_iff_eq_take.mp (nameAt_starts cs)
  simp only [ident] at h
  split at h
  · rw [← h]
    exact hp.symm
  · cases h

theorem reserved_text {words : List String} (h : reserved words cs = extra + 1) :
    String.ofList (cs.take (extra + 1)) ∈ words := by
  unfold reserved at h
  split at h
  · rwa [ident_text h]
  · cases h

/-- The characters that operators start with. -/
def operatorStarts : List Char := "-=+*/<>%^!&|".toList

theorem mem_operatorStarts {c : Char} (h : isOperatorChar c = true) : c ∈ operatorStarts := by
  have hall : "-=+*/<>%^!".toList.all (operatorStarts.contains ·) = true := by decide +kernel
  exact List.contains_iff_mem.mp (List.all_eq_true.mp hall c (List.contains_iff_mem.mp h))

theorem mem_operatorStarts_of_pair {c d : Char} (h : (c, d) ∈ pairOperators) :
    c ∈ operatorStarts := by
  have hall : ∀ q ∈ pairOperators, q.1 ∈ operatorStarts := by decide
  exact hall _ h

/-- The kind of a token that is neither a string nor the end of the input, from its value. -/
def kindOf (value : String) : TokenKind :=
  if value ∈ modifierWords then .modifier
  else if value ∈ keywordWords then .keyword
  else
    match value.toList with
    | [] => .eof
    | c :: _ =>
      if isNameStart c then .ident
      else if isAsciiDigit c then .number
      else if operatorStarts.contains c then .operator
      else .punct

/-- Reserved words are names. -/
theorem reserved_start :
    ∀ w ∈ modifierWords ++ keywordWords, w.toList.head?.any isNameStart = true := by
  decide

theorem kindOf_cons {c : Char} (hc : isNameStart c = false) (cs : List Char) :
    kindOf (String.ofList (c :: cs)) =
      if isAsciiDigit c then .number
      else if operatorStarts.contains c then .operator
      else .punct := by
  have hw : String.ofList (c :: cs) ∉ modifierWords ++ keywordWords := by
    intro hm
    have hs := reserved_start _ hm
    simp [hc] at hs
  rw [List.mem_append, not_or] at hw
  unfold kindOf
  rw [if_neg hw.1, if_neg hw.2, String.toList_ofList]
  simp only [hc, Bool.false_eq_true, if_false]

theorem not_isNameStart_of_digit {c : Char} (h : isAsciiDigit c = true) :
    isNameStart c = false := by
  simp only [isAsciiDigit, Bool.and_eq_true, decide_eq_true_eq, Char.le_def,
    UInt32.le_iff_toNat_le] at h
  simp only [isNameStart, isAsciiLetter, Bool.or_eq_false_iff, Bool.and_eq_false_iff,
    decide_eq_false_iff_not, Char.le_def, UInt32.le_iff_toNat_le, beq_eq_false_iff_ne]
  obtain ⟨h₁, h₂⟩ := h
  change 48 ≤ c.val.toNat at h₁
  change c.val.toNat ≤ 57 at h₂
  refine ⟨⟨.inl ?_, .inl ?_⟩, ?_⟩
  · change ¬ 97 ≤ c.val.toNat
    omega
  · change ¬ 65 ≤ c.val.toNat
    omega
  · rintro rfl
    revert h₂
    decide

theorem kindOf_operator {c d : Char} (cs : List Char)
    (h : pairOperators.contains (c, d) = true ∨ isOperatorChar c = true) :
    kindOf (String.ofList (c :: cs)) = .operator := by
  have hc : c ∈ operatorStarts := by
    rcases h with h | h
    · exact mem_operatorStarts_of_pair (List.contains_iff_mem.mp h)
    · exact mem_operatorStarts h
  have hn : operatorStarts.all (fun c => !isNameStart c && !isAsciiDigit c) = true := by
    decide +kernel
  obtain ⟨hs, hd⟩ : isNameStart c = false ∧ isAsciiDigit c = false := by
    simpa using List.all_eq_true.mp hn c hc
  rw [kindOf_cons hs, hd, List.contains_iff_mem.mpr hc]
  rfl

theorem kindOf_punct {c : Char} (cs : List Char) (h : isPunct c = true) :
    kindOf (String.ofList (c :: cs)) = .punct := by
  have hall : "[]`~()@#$\x7b\x7d:;?.,".toList.all (fun c =>
      !isNameStart c && (!isAsciiDigit c && !operatorStarts.contains c)) = true := by decide +kernel
  obtain ⟨hs, hd, ho⟩ : isNameStart c = false ∧ isAsciiDigit c = false ∧
      operatorStarts.contains c = false := by
    simpa using List.all_eq_true.mp hall c (List.contains_iff_mem.mp h)
  rw [kindOf_cons hs, hd, ho]
  rfl

theorem mem_modifierWords {value : String} (h : kindOf value = .modifier) :
    value ∈ modifierWords := by
  unfold kindOf at h
  split at h
  · assumption
  · split at h
    · cases h
    · split at h
      · cases h
      · repeat' split at h
        all_goals cases h

theorem kindOf_name (h : nameAt cs ≠ []) (hm : String.ofList (nameAt cs) ∉ modifierWords)
    (hk : String.ofList (nameAt cs) ∉ keywordWords) :
    kindOf (String.ofList (nameAt cs)) = .ident := by
  cases cs with
  | nil => exact absurd rfl h
  | cons c cs =>
    cases hc : isNameStart c with
    | false => simp [nameAt, hc] at h
    | true =>
      have hn : nameAt (c :: cs) = c :: cs.takeWhile isNameChar := by simp [nameAt, hc]
      unfold kindOf
      rw [if_neg hm, if_neg hk, String.toList_ofList, hn]
      simp only [hc, if_true]

theorem ident_nameAt (h : ident cs = extra + 1) : nameAt cs ≠ [] := by
  intro hn
  simp [ident, hn] at h

/-- What the grammar sees of a text has the kind that its value announces. -/
theorem kindOf_classify (h : classify cs = some (kind, extra)) (hl : kind.isLayout = false)
    (hs : kind ≠ .string) : kindOf (String.ofList (cs.take (extra + 1))) = kind := by
  obtain ⟨rule, hm, hr⟩ := classify_rule h
  cases kind with
  | comment | backslash | whitespace | newline => cases hl
  | string => exact absurd rfl hs
  | eof => exact absurd rfl (classify_ne_eof h)
  | modifier =>
    obtain rfl : rule = reserved modifierWords := by simpa [rules] using hm
    exact if_pos (reserved_text hr)
  | keyword =>
    obtain rfl : rule = reserved keywordWords := by simpa [rules] using hm
    have hd : ∀ w ∈ keywordWords, w ∉ modifierWords := by decide
    have hk := reserved_text hr
    unfold kindOf
    rw [if_neg (hd _ hk), if_pos hk]
  | ident =>
    obtain rfl : rule = ident := by simpa [rules] using hm
    obtain ⟨h₁, h₂⟩ := classify_ident h
    simp only [reserved, hr, ite_eq_right_iff, Nat.add_eq_zero_iff, Nat.one_ne_zero, and_false,
      imp_false] at h₁ h₂
    rw [ident_text hr]
    exact kindOf_name (ident_nameAt hr) h₁ h₂
  | number =>
    obtain rfl : rule = number := by simpa [rules] using hm
    cases cs with
    | nil => simp [number] at hr
    | cons c cs =>
      cases hc : isAsciiDigit c with
      | false => simp [number, hc] at hr
      | true =>
        rw [List.take_succ_cons, kindOf_cons (not_isNameStart_of_digit hc), hc]
        rfl
  | operator =>
    obtain rfl : rule = operator := by simpa [rules] using hm
    match cs, hr with
    | [c], hr =>
      simp only [operator] at hr
      split at hr
      · next hc => exact kindOf_operator (d := c) _ (.inr hc)
      · cases hr
    | c :: d :: cs, hr =>
      simp only [operator] at hr
      split at hr
      · next hc => exact kindOf_operator _ (.inl hc)
      · split at hr
        · next hc => exact kindOf_operator (d := d) _ (.inr hc)
        · cases hr
  | punct =>
    obtain rfl : rule = punct := by simpa [rules] using hm
    cases cs with
    | nil => cases hr
    | cons c cs =>
      simp only [punct] at hr
      split at hr
      · next hc => exact kindOf_punct _ hc
      · cases hr

/-- How a piece of a text comes about. -/
structure Cut (p : Piece) : Prop where
  classified : ∃ c rest extra, classify (c :: rest) = some (p.kind, extra) ∧
    p.text = c :: rest.take extra
  valued : valueOf p.kind p.text = .ok p.value

theorem cut_of_mem_pieces {p : Piece} (h : p ∈ (pieces cs).1) : Cut p := by
  induction cs using pieces.induct with
  | case1 => simp [pieces] at h
  | case2 c rest hc => simp [pieces, hc] at h
  | case3 c rest kind extra hc text cause hv => simp [pieces, hc, text, hv] at h
  | case4 c rest kind extra hc text value hv others fault hp ih =>
    unfold pieces at h
    simp only [hc, text, hv, List.mem_cons] at h
    rcases h with rfl | h
    · exact ⟨⟨c, rest, extra, hc, rfl⟩, hv⟩
    · exact ih h

end Lexical

/-- A token that is no string has the kind that its value announces. -/
def Lexeme.Lawful (l : Lexeme) : Prop :=
  l.kind ≠ .eof → l.kind ≠ .string → l.kind = Lexical.kindOf l.value

theorem Lexical.Cut.lawful {p : Piece} (h : Cut p) (hl : p.kind.isLayout = false) :
    p.toLexeme.Lawful := by
  intro _ hs
  obtain ⟨c, rest, extra, hc, ht⟩ := h.classified
  have hv := h.valued
  simp only [valueOf, if_neg hs, Except.ok.injEq] at hv
  rw [← hv, ht, ← List.take_succ_cons]
  exact (kindOf_classify hc hl hs).symm

theorem Lexical.Cut.kind_ne_eof {p : Piece} (h : Cut p) : p.kind ≠ .eof := by
  obtain ⟨c, rest, extra, hc, -⟩ := h.classified
  exact classify_ne_eof hc

theorem Lexical.placed_lexemes (file : String) (p : Place) (ps : List Piece) :
    (placed file p ps).map (·.toLexeme) = ps.map (·.toLexeme) := by
  induction ps generalizing p with
  | nil => rfl
  | cons q ps ih => simp [placed, ih]

namespace Lexical

/-- What the grammar sees of some pieces. -/
def lexemes (ps : List Piece) : List Lexeme :=
  (ps.map (·.toLexeme)).filter fun l => !l.kind.isLayout

/-- The tokens of some pieces that the grammar sees. -/
def visible (file : String) (p : Place) (ps : List Piece) : List Token :=
  (placed file p ps).filter fun t => !t.kind.isLayout

theorem visible_lexemes {file : String} {p : Place} {ps : List Piece} :
    (visible file p ps).map (·.toLexeme) = lexemes ps := by
  rw [lexemes, ← placed_lexemes file p ps, visible, List.filter_map]
  rfl

end Lexical

/-- An input of the grammar as scanning yields it: lawful tokens, and the end of the input behind
them and nowhere else. -/
def LawfulInput (input : Array Lexeme) : Prop :=
  ∃ ls, input.toList = ls ++ [.eof] ∧ ∀ l ∈ ls, l.kind ≠ .eof ∧ l.Lawful

theorem TokenStream.ofTokens_eof (ts : List Token) (p : Position) :
    (TokenStream.ofTokens (ts ++ [Lexical.eofAt p])).tokens =
      (ts ++ [Lexical.eofAt p]).toArray :=
  ofTokens_tokens (by simp [Lexical.eofAt, Lexeme.eof])

theorem Except.exists_of_isOk {ε α : Type} {x : Except ε α} (h : x.isOk = true) :
    ∃ a, x = .ok a := by
  cases x with
  | error e => cases h
  | ok a => exact ⟨a, rfl⟩

/-- The tokens of a source are its pieces, each in its place. -/
theorem scan_eq {file source : String} {tokens : List Token}
    (h : scan file source = .ok tokens) :
    ∃ ps, Lexical.pieces source.toList = (ps, none) ∧
      tokens = Lexical.placed file .start ps ++
        [Lexical.eofAt (.ofPlace file (Lexical.endOf .start ps))] := by
  simp only [scan, Lexical.tokensFrom] at h
  cases hp : Lexical.pieces source.toList with
  | mk ps fault =>
    cases fault with
    | some cause => simp [hp] at h
    | none =>
      simp only [hp, Except.ok.injEq] at h
      exact ⟨ps, rfl, h.symm⟩

/-- The tokens of a source, layout left out. -/
theorem tokenize_eq {file source : String} {tokens : List Token}
    (h : tokenize file source = .ok tokens) :
    ∃ ps p, Lexical.pieces source.toList = (ps, none) ∧
      tokens = (Lexical.placed file .start ps).filter (fun t => !t.kind.isLayout) ++
        [Lexical.eofAt p] := by
  unfold tokenize at h
  cases hs : scan file source with
  | error e => simp [hs, Except.map] at h
  | ok all =>
    obtain ⟨ps, hp, rfl⟩ := scan_eq hs
    simp only [hs, Except.map, Except.ok.injEq, List.filter_append] at h
    exact ⟨ps, _, hp, h.symm⟩

theorem tokenize_of_pieces {file source : String} {ps : List Piece}
    (h : Lexical.pieces source.toList = (ps, none)) :
    tokenize file source = .ok (Lexical.visible file .start ps ++
      [Lexical.eofAt (.ofPlace file (Lexical.endOf .start ps))]) := by
  simp [tokenize, scan, Lexical.tokensFrom, h, Except.map, Lexical.visible, Lexical.eofAt,
    Lexeme.eof, TokenKind.isLayout]

theorem tokenize_lawful {file source : String} {tokens : List Token}
    (h : tokenize file source = .ok tokens) :
    LawfulInput (TokenStream.ofTokens tokens).lexemes := by
  obtain ⟨ps, p, hp, rfl⟩ := tokenize_eq h
  refine ⟨(ps.map (·.toLexeme)).filter fun l => !l.kind.isLayout, ?_, fun l hl => ?_⟩
  · rw [TokenStream.lexemes, TokenStream.ofTokens_eof, ← Lexical.placed_lexemes file .start,
      List.filter_map]
    simp [Lexical.eofAt, Function.comp_def]
  · obtain ⟨hm, hk⟩ := List.mem_filter.mp hl
    obtain ⟨q, hq, rfl⟩ := List.mem_map.mp hm
    have hc : Lexical.Cut q := Lexical.cut_of_mem_pieces (by rw [hp]; exact hq)
    exact ⟨hc.kind_ne_eof, hc.lawful (by simpa using hk)⟩

open Grammar (tokenAt)

theorem LawfulInput.lawful {input : Array Lexeme} (h : LawfulInput input) (i : Nat) :
    (tokenAt input i).Lawful := by
  obtain ⟨ls, hi, hl⟩ := h
  unfold tokenAt
  rw [← Array.getElem?_toList, hi]
  cases hg : (ls ++ [Lexeme.eof])[i]? with
  | none => exact fun hk => absurd rfl hk
  | some l =>
    have hm := List.mem_of_getElem? hg
    rw [List.mem_append, List.mem_singleton] at hm
    rcases hm with hm | rfl
    · exact (hl l hm).2
    · exact fun hk => absurd rfl hk

/-- A spelling decides the kind of a token. -/
theorem Lexeme.Lawful.kind_eq {l : Lexeme} {text : String} (hl : l.Lawful)
    (h : l.spells text = true) : l.kind = Lexical.kindOf text := by
  simp only [Lexeme.spells, Bool.and_eq_true, bne_iff_ne, beq_iff_eq] at h
  obtain ⟨⟨hs, he⟩, rfl⟩ := h
  exact hl he hs

theorem Lexeme.spells_unique {l : Lexeme} {a b : String} (ha : l.spells a = true)
    (hb : l.spells b = true) : a = b := by
  simp only [Lexeme.spells, Bool.and_eq_true, beq_iff_eq] at ha hb
  rw [← ha.2, hb.2]

theorem Lexeme.eq_of_spells {l : Lexeme} {text : String} (hl : l.Lawful)
    (h : l.spells text = true) : l = ⟨Lexical.kindOf text, text⟩ := by
  have hk := hl.kind_eq h
  simp only [Lexeme.spells, Bool.and_eq_true, beq_iff_eq] at h
  cases l
  simp_all

/-- A modifier token spells a modifier. -/
theorem Lexeme.Lawful.modifier {l : Lexeme} (hl : l.Lawful) (hk : l.kind = .modifier) :
    ∃ m, Modifier.ofSpelling? l.value = some m ∧ l = ⟨.modifier, m.spelling⟩ := by
  have hv : Lexical.kindOf l.value = .modifier := by rw [← hl (by simp [hk]) (by simp [hk]), hk]
  have hall : ∀ w ∈ modifierWords, ∃ m, Modifier.ofSpelling? w = some m ∧ w = m.spelling := by
    intro w hw
    simp only [modifierWords, List.mem_cons, List.not_mem_nil, or_false] at hw
    rcases hw with rfl | rfl | rfl
    · exact ⟨.pub, rfl, rfl⟩
    · exact ⟨.override, rfl, rfl⟩
    · exact ⟨.static, rfl, rfl⟩
  obtain ⟨m, hm, hw⟩ := hall _ (Lexical.mem_modifierWords hv)
  refine ⟨m, hm, ?_⟩
  rw [← hw, ← hk]

end Syntree
