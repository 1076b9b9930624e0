import Mathlib.Algebra.Group.Nat.Defs
import Syntree.Proofs.Lexemes

/-!
Tokens tile the source: each starts where the one before it ends, the first at the start and the
last behind all of it, and what a position counts is what lies before it.
-/

namespace Syntree

/-- The bytes of a text. -/
def bytes (text : List Char) : Nat := (String.ofList text).utf8ByteSize

theorem bytes_append (a b : List Char) : bytes (a ++ b) = bytes a + bytes b := by
  simp [bytes, String.ofList_append, String.utf8ByteSize_append]

theorem bytes_single (c : Char) : bytes [c] = c.utf8Size := by
  rw [← String.utf8ByteSize_singleton, String.singleton_eq_ofList, bytes]

theorem bytes_toList (s : String) : bytes s.toList = s.utf8ByteSize := by
  rw [bytes, String.ofList_toList]

theorem bytes_pos {text : List Char} (h : text ≠ []) : 0 < bytes text := by
  cases text with
  | nil => exact absurd rfl h
  | cons c cs =>
    have hs := bytes_append [c] cs
    rw [bytes_single, List.singleton_append] at hs
    have hc := c.utf8Size_pos
    omega

/-- The characters since the last newline, or since the start. -/
def sinceNewline (text : List Char) : Nat := (text.reverse.takeWhile (· != '\n')).length

namespace Place

/-- The place behind a text, each count taken from the whole of it. -/
def behind (text : List Char) : Place :=
  ⟨bytes text, 1 + text.count '\n', 1 + sinceNewline text⟩

theorem behind_next (text : List Char) (c : Char) :
    (behind text).next c = behind (text ++ [c]) := by
  have hb : bytes (text ++ [c]) = bytes text + c.utf8Size := by
    rw [bytes_append, bytes_single]
  by_cases hc : c = '\n'
  · subst hc
    simp [behind, next, hb, sinceNewline, Nat.add_assoc]
  · simp [behind, next, hb, hc, sinceNewline, Nat.add_comm]

theorem behind_after (before text : List Char) :
    (behind before).after text = behind (before ++ text) := by
  induction text generalizing before with
  | nil => simp [after]
  | cons c text ih =>
    have h := ih (before ++ [c])
    rw [← behind_next, List.append_assoc] at h
    exact h

theorem length_le_bytes (text : List Char) : text.length ≤ bytes text := by
  induction text with
  | nil => exact Nat.zero_le _
  | cons c text ih =>
    have hs := bytes_append [c] text
    rw [bytes_single, List.singleton_append] at hs
    have hc := c.utf8Size_pos
    rw [List.length_cons]
    omega

theorem sinceNewline_le (text : List Char) : sinceNewline text ≤ bytes text := by
  have h := (List.takeWhile_sublist (· != '\n') (l := text.reverse)).length_le
  rw [List.length_reverse] at h
  exact Nat.le_trans h (length_le_bytes text)

theorem count_newline_le (text : List Char) : text.count '\n' ≤ bytes text :=
  Nat.le_trans List.count_le_length (length_le_bytes text)

end Place

/-- A position as it stands behind the text `before`. Its line and column are 32-bit words, so that
they can fall short of the counts only behind a text of `2 ^ 32 - 1` bytes. -/
structure Position.Marks (file : String) (before : List Char) (p : Position) : Prop where
  file_eq : p.file = file
  offset : p.offset.toNat = bytes before
  line : p.line = (1 + before.count '\n').toUInt32
  column : p.column = (1 + sinceNewline before).toUInt32
  line_exact : bytes before + 1 < 2 ^ 32 → p.line.toNat = 1 + before.count '\n'
  column_exact : bytes before + 1 < 2 ^ 32 → p.column.toNat = 1 + sinceNewline before

theorem Position.marks_behind (file : String) {before : List Char} (h : bytes before < 2 ^ 32) :
    (Position.ofPlace file (.behind before)).Marks file before where
  file_eq := rfl
  offset := Nat.mod_eq_of_lt h
  line := rfl
  column := rfl
  line_exact hb := by
    have hl : 1 + before.count '\n' < 2 ^ 32 := by
      have hc := Place.count_newline_le before
      omega
    exact Nat.mod_eq_of_lt hl
  column_exact hb := by
    have hl : 1 + sinceNewline before < 2 ^ 32 := by
      have hc := Place.sinceNewline_le before
      omega
    exact Nat.mod_eq_of_lt hl

/-- A value as the text of its token gives it. -/
inductive ReadFrom (text : List Char) : TokenKind → String → Prop
  | slice {kind : TokenKind} (h : kind ≠ .string) : ReadFrom text kind (String.ofList text)
  | raw {content : List Char} (h : text = '\x27' :: content ++ ['\x27']) :
      ReadFrom text .string (String.ofList content)
  | escaped {content value : List Char} (h : text = '"' :: content ++ ['"'])
      (hv : Text.unescape content = .ok value) : ReadFrom text .string (String.ofList value)

namespace Lexical

variable {cs : List Char} {n : Nat}

theorem closingQuote_at (h : closingQuote cs = some n) : cs[n]? = some '"' := by
  induction cs using closingQuote.induct generalizing n with
  | case1 => cases h
  | case2 c cs ih =>
    simp only [closingQuote, Option.map_eq_some_iff] at h
    obtain ⟨m, hm, rfl⟩ := h
    exact ih hm
  | case3 cs hn =>
    simp only [closingQuote, if_true, Option.some.injEq] at h
    simp [← h]
  | case4 c cs hn hc ih =>
    rw [closingQuote.eq_3 _ _ hn, if_neg hc] at h
    obtain ⟨m, hm, rfl⟩ := Option.map_eq_some_iff.mp h
    exact ih hm

theorem lastQuote_at (h : lastQuote cs = some n) : cs[n]? = some '"' := by
  induction cs generalizing n with
  | nil => cases h
  | cons c cs ih =>
    simp only [lastQuote] at h
    split at h
    · next m hm =>
      cases h
      exact ih hm
    · split at h
      · next hc =>
        cases h
        simp [hc]
      · cases h

theorem singleQuote_at (h : singleQuote cs = some n) : cs[n]? = some '\x27' := by
  induction cs generalizing n with
  | nil => cases h
  | cons c cs ih =>
    simp only [singleQuote] at h
    split at h
    · next hc =>
      cases h
      simp [hc]
    · obtain ⟨m, hm, rfl⟩ := Option.map_eq_some_iff.mp h
      exact ih hm

/-- The characters up to one at a known distance, that one being the last. -/
theorem take_to {q : Char} (h : cs[n]? = some q) : cs.take (n + 1) = cs.take n ++ [q] := by
  rw [List.take_add_one, h]
  rfl

/-- A string is what stands between two equal quotes. -/
theorem string_text {c : Char} {rest : List Char} {extra : Nat}
    (h : string (c :: rest) = extra + 1) :
    (c = '"' ∨ c = '\x27') ∧ ∃ content, rest.take extra = content ++ [c] := by
  unfold string at h
  split at h
  · next hc =>
    obtain ⟨rfl, rfl⟩ := List.cons.inj hc
    cases hq : (closingQuote rest).or (lastQuote rest) with
    | none => simp [hq] at h
    | some n =>
      have hn : rest[n]? = some '"' := by
        rcases Option.or_eq_some_iff.mp hq with hq | ⟨-, hq⟩
        · exact closingQuote_at hq
        · exact lastQuote_at hq
      obtain rfl : extra = n + 1 := by simpa [hq] using h.symm
      exact ⟨.inl rfl, _, take_to hn⟩
  · next hc =>
    obtain ⟨rfl, rfl⟩ := List.cons.inj hc
    cases hq : singleQuote rest with
    | none => simp [hq] at h
    | some n =>
      obtain rfl : extra = n + 1 := by simpa [hq] using h.symm
      exact ⟨.inr rfl, _, take_to (singleQuote_at hq)⟩
  · cases h

theorem Cut.readFrom {p : Piece} (h : Cut p) : ReadFrom p.text p.kind p.value := by
  obtain ⟨c, rest, extra, hc, ht⟩ := h.classified
  have hv := h.valued
  by_cases hs : p.kind = .string
  · obtain ⟨rule, hm, hr⟩ := classify_rule hc
    rw [hs] at hm hv ⊢
    obtain rfl : rule = string := by simpa [rules] using hm
    obtain ⟨hq, content, hcontent⟩ := string_text hr
    rw [ht, hcontent] at hv ⊢
    simp only [valueOf, if_true, List.drop_succ_cons, List.drop_zero, List.dropLast_concat,
      List.head?_cons, Option.some.injEq] at hv
    rcases hq with rfl | rfl
    · rw [if_pos rfl] at hv
      split at hv
      · next value hu =>
        rw [← Except.ok.inj hv]
        exact .escaped rfl hu
      · cases hv
    · rw [if_neg (by decide), Except.ok.injEq] at hv
      rw [← hv]
      exact .raw rfl
  · rw [valueOf, if_neg hs, Except.ok.injEq] at hv
    rw [← hv]
    exact .slice hs

theorem Cut.text_ne_nil {p : Piece} (h : Cut p) : p.text ≠ [] := by
  obtain ⟨c, rest, extra, -, ht⟩ := h.classified
  simp [ht]

/-- The pieces of a text without a fault make it up. -/
theorem pieces_text (h : (pieces cs).2 = none) : (pieces cs).1.flatMap (·.text) = cs := by
  induction cs using pieces.induct with
  | case1 => simp [pieces]
  | case2 c rest hc => simp [pieces, hc] at h
  | case3 c rest kind extra hc text cause hv => simp [pieces, hc, text, hv] at h
  | case4 c rest kind extra hc text value hv others fault hp ih =>
    unfold pieces at h ⊢
    simp only [hc, text, hv] at h ⊢
    rw [List.flatMap_cons, ih h, List.cons_append, List.take_append_drop]

theorem text_of_pieces {ps : List Piece} (h : pieces cs = (ps, none)) :
    ps.flatMap (·.text) = cs := by
  have ht := pieces_text (congrArg Prod.snd h)
  rwa [h] at ht

end Lexical

/-- A token read from `text`, which stands in the source behind `before`. -/
structure Token.Covers (file : String) (before text : List Char) (t : Token) : Prop where
  start : t.span.start.Marks file before
  stop : t.span.stop.Marks file (before ++ text)
  longer : t.span.start.offset < t.span.stop.offset
  kind_ne : t.kind ≠ .eof
  value : ReadFrom text t.kind t.value

namespace Lexical

theorem endOf_behind (before : List Char) (ps : List Piece) :
    endOf (.behind before) ps = .behind (before ++ ps.flatMap (·.text)) := by
  induction ps generalizing before with
  | nil => simp [endOf]
  | cons q ps ih =>
    have h := ih (before ++ q.text)
    rw [← Place.behind_after, List.append_assoc] at h
    exact h

theorem endOf_start (ps : List Piece) : endOf .start ps = .behind (ps.flatMap (·.text)) := by
  have hend := endOf_behind [] ps
  rwa [List.nil_append] at hend

theorem placed_append (file : String) (p : Place) (ps qs : List Piece) :
    placed file p (ps ++ qs) = placed file p ps ++ placed file (endOf p ps) qs := by
  induction ps generalizing p with
  | nil => rfl
  | cons q ps ih => exact congrArg _ (ih (p.after q.text))

theorem Cut.covers {file : String} {before : List Char} {q : Piece} (h : Cut q)
    (hsize : bytes (before ++ q.text) < 2 ^ 32) :
    Token.Covers file before q.text
      ⟨q.toLexeme, ⟨.ofPlace file (.behind before), .ofPlace file (.behind (before ++ q.text))⟩⟩ := by
  have hb := bytes_append before q.text
  have hp := bytes_pos h.text_ne_nil
  have hstart : (Position.ofPlace file (.behind before)).Marks file before :=
    Position.marks_behind file (by omega)
  have hstop := Position.marks_behind file hsize
  refine ⟨hstart, hstop, ?_, h.kind_ne_eof, h.readFrom⟩
  rw [UInt32.lt_iff_toNat_lt, hstart.offset, hstop.offset]
  omega

/-- Every placed piece covers its own stretch of the text that the pieces make up. -/
theorem placed_covers {file : String} {before : List Char} {ps : List Piece}
    (hc : ∀ q ∈ ps, Cut q) (hsize : bytes (before ++ ps.flatMap (·.text)) < 2 ^ 32) :
    ∀ t ∈ placed file (.behind before) ps, ∃ pre text post,
      before ++ ps.flatMap (·.text) = pre ++ text ++ post ∧ t.Covers file pre text := by
  induction ps generalizing before with
  | nil => intro t ht; cases ht
  | cons q ps ih =>
    rw [List.flatMap_cons, ← List.append_assoc] at hsize ⊢
    intro t ht
    rw [placed, Place.behind_after, List.mem_cons] at ht
    rcases ht with rfl | ht
    · have hq : bytes (before ++ q.text) < 2 ^ 32 := by
        rw [bytes_append] at hsize
        omega
      exact ⟨before, q.text, _, rfl, (hc q List.mem_cons_self).covers hq⟩
    · exact ih (fun r hr => hc r (List.mem_cons_of_mem _ hr)) hsize t ht

end Lexical

theorem scan_of_pieces (file : String) {source : String} {ps : List Piece}
    (h : Lexical.pieces source.toList = (ps, none)) :
    scan file source = .ok (Lexical.placed file .start ps ++
      [Lexical.eofAt (.ofPlace file (.behind source.toList))]) := by
  simp only [scan, Lexical.tokensFrom, h, Lexical.endOf_start, Lexical.text_of_pieces h]

end Syntree
