import Mathlib.Data.List.Forall2
import Mathlib.Data.String.Basic
import Syntree.Proofs.Recognition

/-!
Layout separates tokens and does nothing else. A token stays what it is in front of any blank, and
blanks in front of a text change nothing in what the grammar sees of it, so the words of a source
can be set anew with other blanks between them.
-/

namespace Syntree

namespace Lexical

open Text

variable {c : Char} {cs text u v : List Char} {kind : TokenKind} {ps : List Piece}

/-- The characters that can stand between tokens in any number. -/
def spacing : List Char := [' ', '\t', '\r', '\n']

/-! A token in front of a blank -/

theorem endsWord_spacing (h : ∀ d ∈ v.head?, d ∈ spacing) : endsWord v = true := by
  cases v with
  | nil => rfl
  | cons d v =>
    have hall : spacing.all (fun d => !isWordChar d) = true := by decide
    exact List.all_eq_true.mp hall d (h d rfl)

theorem hasFraction_spacing (h : ∀ d ∈ v.head?, d ∈ spacing) : hasFraction v = false := by
  have hnone : fractionAt v = [] := by
    apply fractionAt.eq_2
    intro r hr
    rw [hr] at h
    exact absurd (h '.' rfl) (by decide)
  simp [hasFraction, hnone]

theorem comment_spacing (h : ∀ d ∈ v.head?, d ∈ spacing) : comment (c :: v) = 0 := by
  apply comment.eq_3
  all_goals
    intro r hr
    obtain ⟨-, rfl⟩ := List.cons.inj hr
    exact absurd (h _ rfl) (by decide)

/-- A token that is no layout is recognised in front of a blank as it is in front of anything. -/
theorem Recognised.spaced (h : Recognised kind text u) (hl : kind.isLayout = false)
    (hv : ∀ d ∈ v.head?, d ∈ spacing) : Recognised kind text v := by
  have hpair : ∀ q ∈ pairOperators, q.2 ∉ spacing := by decide
  have hkind : kind ≠ .comment ∧ kind ≠ .whitespace := by
    constructor
    all_goals
      intro hk
      rw [hk] at hl
      cases hl
  apply h.exchange
  exact {
    word := fun _ => endsWord_spacing hv
    fraction := fun _ => hasFraction_spacing hv
    pair := fun c _ d hd hm => hpair _ hm (hv d hd)
    bare := fun c _ _ => comment_spacing hv
    line := fun hk => absurd hk hkind.1
    blank := fun hk => absurd hk hkind.2 }

/-! Blanks in front of a text -/

/-- The pieces that are no layout. -/
def solid (ps : List Piece) : List Piece :=
  ps.filter fun p => !p.kind.isLayout

theorem solid_lexemes (ps : List Piece) : (solid ps).map (·.toLexeme) = lexemes ps := by
  rw [lexemes, List.filter_map]
  rfl

/-- What is cut from a text, layout left out. -/
def seen (cs : List Char) : List Piece × Option Cause :=
  (solid (pieces cs).1, (pieces cs).2)

theorem seen_token {value : String} (h : Recognised kind text u) (hl : kind.isLayout = false)
    (hv : valueOf kind text = .ok value) :
    seen (text ++ u) = (⟨⟨kind, value⟩, text⟩ :: (seen u).1, (seen u).2) := by
  simp [seen, solid, pieces_of_recognised h hv, hl]

theorem seen_layout (h : Recognised kind text u) (hl : kind.isLayout = true) :
    seen (text ++ u) = seen u := by
  have hv : valueOf kind text = .ok (String.ofList text) := by
    refine if_neg ?_
    rintro rfl
    cases hl
  simp [seen, solid, pieces_of_recognised h hv, hl]

theorem seen_blanks (cs : List Char) : seen cs = seen (cs.dropWhile isWhitespace) := by
  have hsplit := List.takeWhile_append_dropWhile (p := isWhitespace) (l := cs)
  cases hrun : cs.takeWhile isWhitespace with
  | nil =>
    rw [hrun, List.nil_append] at hsplit
    rw [hsplit]
  | cons c run =>
    have hinside : ∀ d ∈ c :: run, isWhitespace d = true := by
      intro d hd
      exact of_mem_takeWhile (by rwa [hrun])
    have hseen := seen_layout (.blanks hinside (dropWhile_stops isWhitespace cs)) rfl
    rwa [← hrun, hsplit] at hseen

theorem seen_space (h : c ∈ spacing) (cs : List Char) : seen (c :: cs) = seen cs := by
  by_cases hw : isWhitespace c = true
  · rw [seen_blanks (c :: cs), List.dropWhile_cons_of_pos hw, ← seen_blanks]
  · obtain rfl : c = '\n' := by
      have hall : spacing.all (fun d => isWhitespace d || d == '\n') = true := by decide
      have hc := List.all_eq_true.mp hall c h
      rw [Bool.or_eq_true, beq_iff_eq] at hc
      exact hc.resolve_left hw
    exact seen_layout .newline rfl

theorem seen_spaces (h : ∀ d ∈ v, d ∈ spacing) (cs : List Char) : seen (v ++ cs) = seen cs := by
  induction v with
  | nil => rfl
  | cons d v ih =>
    obtain ⟨hd, hv⟩ := List.forall_mem_cons.mp h
    rw [List.cons_append, seen_space hd, ih hv]

/-! Words set anew -/

/-- A piece that the grammar sees, as it is recognised somewhere. -/
structure Seen (p : Piece) : Prop where
  solid : p.kind.isLayout = false
  recognised : ∃ u, Recognised p.kind p.text u
  valued : valueOf p.kind p.text = .ok p.value

theorem seen_of_pieces {fault : Option Cause} (h : pieces cs = (ps, fault)) :
    ∀ p ∈ solid ps, Seen p := by
  induction ps generalizing cs with
  | nil => intro p hp; cases hp
  | cons q ps ih =>
    obtain ⟨u, rfl, hrec, hvalue, hu⟩ := recognised_of_pieces h
    intro p hp
    obtain ⟨hm, hl⟩ := List.mem_filter.mp hp
    have hlayout : p.kind.isLayout = false := by simpa using hl
    rcases List.mem_cons.mp hm with rfl | hm
    · exact ⟨hlayout, ⟨u, hrec⟩, hvalue⟩
    · exact ih hu p (List.mem_filter.mpr ⟨hm, hl⟩)

/-- The texts of some pieces, each with what is put behind it. -/
def setOut (ps : List Piece) (seps : List String) : List Char :=
  (List.zipWith (fun p s => p.text ++ s.toList) ps seps).flatten

theorem setOut_cons (p : Piece) (ps : List Piece) (s : String) (seps : List String) :
    setOut (p :: ps) (s :: seps) = p.text ++ (s.toList ++ setOut ps seps) := by
  simp [setOut]

/-- Behind a word stands a blank, or nothing if it is the last. -/
theorem setOut_behind {s : String} {seps : List String} (hs : ∀ c ∈ s.toList, c ∈ spacing)
    (hne : ∀ r ∈ (s :: seps).dropLast, r ≠ "") :
    ∀ d ∈ (s.toList ++ setOut ps seps).head?, d ∈ spacing := by
  intro d hd
  cases hc : s.toList with
  | cons e r =>
    rw [hc] at hs hd
    rw [← Option.some.inj hd]
    exact hs e List.mem_cons_self
  | nil =>
    cases seps with
    | nil => simp [hc, setOut] at hd
    | cons t seps => exact absurd (String.toList_eq_nil_iff.mp hc) (hne s List.mem_cons_self)

/-- Words set anew are what is seen of their text. -/
theorem seen_setOut {seps : List String} (hp : ∀ p ∈ ps, Seen p) (hlen : seps.length = ps.length)
    (hs : ∀ s ∈ seps, ∀ c ∈ s.toList, c ∈ spacing) (hne : ∀ s ∈ seps.dropLast, s ≠ "") :
    seen (setOut ps seps) = (ps, none) := by
  induction ps generalizing seps with
  | nil => simp [setOut, seen, pieces, solid]
  | cons p ps ih =>
    cases seps with
    | nil => cases hlen
    | cons s seps =>
      obtain ⟨⟨hsolid, ⟨u, hrec⟩, hvalue⟩, hp⟩ := List.forall_mem_cons.mp hp
      obtain ⟨hs, hseps⟩ := List.forall_mem_cons.mp hs
      have hne' : ∀ r ∈ seps.dropLast, r ≠ "" := by
        intro r hr
        cases seps with
        | nil => cases hr
        | cons => exact hne r (List.mem_cons_of_mem s hr)
      have hrest := ih hp (Nat.succ.inj hlen) hseps hne'
      rw [setOut_cons, seen_token (hrec.spaced hsolid (setOut_behind hs hne)) hsolid hvalue,
        seen_spaces hs, hrest]

end Lexical

/-! Words of a source -/

/-- The text of a source between the byte offsets of a span. -/
def Span.slice (source : String) (s : Span) : String :=
  String.Pos.Raw.extract source ⟨s.start.offset.toNat⟩ ⟨s.stop.offset.toNat⟩

/-- Where a token stands in a source, and the word that it was read from there. -/
def Token.Stands (file source : String) (t : Token) (word : String) : Prop :=
  ∃ before behind, source.toList = before ++ word.toList ++ behind ∧
    t.span = ⟨.ofPlace file (.behind before), .ofPlace file (.behind (before ++ word.toList))⟩

theorem bytes_eq_utf8Len (text : List Char) : bytes text = String.utf8Len text :=
  String.utf8ByteSize_ofList text

theorem Token.Stands.slice {file source word : String} {t : Token}
    (h : t.Stands file source word) (hsize : source.utf8ByteSize < 2 ^ 32) :
    t.span.slice source = word := by
  obtain ⟨before, behind, hsource, hspan⟩ := h
  have hstart := bytes_append before word.toList
  have htotal := bytes_append (before ++ word.toList) behind
  rw [← hsource, bytes_toList] at htotal
  have hb : bytes before < 2 ^ 32 := by omega
  have hw : bytes (before ++ word.toList) < 2 ^ 32 := by omega
  have hslice := String.extract_of_valid before word.toList behind
  rw [← hsource, String.ofList_toList, String.ofList_toList, ← String.utf8Len_append,
    ← bytes_eq_utf8Len, ← bytes_eq_utf8Len] at hslice
  rw [Span.slice, hspan, (Position.marks_behind file hb).offset,
    (Position.marks_behind file hw).offset, hslice]

namespace Lexical

theorem visible_stands (file : String) {source : String} {ps : List Piece} (before : List Char)
    (h : source.toList = before ++ ps.flatMap (·.text)) :
    List.Forall₂ (Token.Stands file source) (visible file (.behind before) ps)
      ((solid ps).map fun p => .ofList p.text) := by
  induction ps generalizing before with
  | nil => exact .nil
  | cons q ps ih =>
    rw [List.flatMap_cons, ← List.append_assoc] at h
    have hrest := ih _ h
    cases hl : q.kind.isLayout with
    | true => simpa [visible, solid, placed, hl, Place.behind_after] using hrest
    | false =>
      have hfirst : Token.Stands file source ⟨q.toLexeme,
          ⟨.ofPlace file (.behind before), .ofPlace file (.behind (before ++ q.text))⟩⟩
          (.ofList q.text) := ⟨before, ps.flatMap (·.text), by simp [h], by simp⟩
      simpa [visible, solid, placed, hl, Place.behind_after] using And.intro hfirst hrest

end Lexical

/-- Words, each with what is put behind it. -/
def spaced (words seps : List String) : String :=
  String.join (List.zipWith (· ++ ·) words seps)

theorem spaced_toList (ps : List Piece) (seps : List String) :
    (spaced (ps.map fun p => .ofList p.text) seps).toList = Lexical.setOut ps seps := by
  simp [spaced, Lexical.setOut, List.flatMap_def, List.map_zipWith, List.zipWith_map_left]

/-- The words of a source give the same tokens again with any other blanks between them. -/
theorem tokenize_spaced {file source : String} {tokens : List Token}
    (h : tokenize file source = .ok tokens) :
    ∃ words, List.Forall₂ (Token.Stands file source) tokens.dropLast words ∧
      (source.utf8ByteSize < 2 ^ 32 → words = tokens.dropLast.map (·.span.slice source)) ∧
      ∀ file' lead seps, seps.length = words.length →
        (∀ s ∈ lead :: seps, ∀ c ∈ s.toList, c ∈ [' ', '\t', '\r', '\n']) →
        (∀ s ∈ seps.dropLast, s ≠ "") →
        ∃ tokens' last, tokenize file' (lead ++ spaced words seps) = .ok (tokens' ++ [last]) ∧
          tokens'.map (·.toLexeme) = tokens.dropLast.map (·.toLexeme) ∧ last.toLexeme = .eof := by
  obtain ⟨ps, -, hp, -⟩ := tokenize_eq h
  obtain rfl := Except.ok.inj ((tokenize_of_pieces hp).symm.trans h)
  have htext := Lexical.text_of_pieces hp
  have hstands : List.Forall₂ (Token.Stands file source) (Lexical.visible file .start ps)
      ((Lexical.solid ps).map fun p => .ofList p.text) :=
    Lexical.visible_stands file [] htext.symm
  rw [List.dropLast_concat]
  refine ⟨_, hstands, ?_, ?_⟩
  · intro hsize
    have hslices : List.Forall₂ (fun t word => t.span.slice source = word)
        (Lexical.visible file .start ps) ((Lexical.solid ps).map fun p => .ofList p.text) :=
      hstands.imp fun _ _ ht => ht.slice hsize
    rw [← List.forall₂_map_left_iff (R := Eq), List.forall₂_eq_eq_eq] at hslices
    exact hslices.symm
  · intro file' lead seps hlen hs hne
    obtain ⟨hlead, hseps⟩ := List.forall_mem_cons.mp hs
    have hlen' : seps.length = (Lexical.solid ps).length := by simpa using hlen
    have hseen := Lexical.seen_setOut (Lexical.seen_of_pieces hp) hlen' hseps hne
    rw [← spaced_toList, ← Lexical.seen_spaces hlead, ← String.toList_append] at hseen
    generalize lead ++ spaced ((Lexical.solid ps).map fun p => .ofList p.text) seps = again
      at hseen ⊢
    cases hq : Lexical.pieces again.toList with
    | mk qs fault =>
      obtain ⟨hsolid, rfl⟩ : Lexical.solid qs = Lexical.solid ps ∧ fault = none := by
        simpa [Lexical.seen, hq] using hseen
      refine ⟨_, _, tokenize_of_pieces hq, ?_, rfl⟩
      rw [Lexical.visible_lexemes, Lexical.visible_lexemes, ← Lexical.solid_lexemes, hsolid,
        Lexical.solid_lexemes]

/-- A comment that is never closed, a number with a fraction before a point, and a string over two
lines. -/
theorem tokenize_spaced_apart :
    ∃ tokens tokens' last, tokenize "f" "a/*1.5.x'\n'" = .ok tokens ∧
      tokenize "g" "\ta /\n*\r1.5 .\nx '\n'\n" = .ok (tokens' ++ [last]) ∧
      tokens'.map (·.toLexeme) = tokens.dropLast.map (·.toLexeme) ∧
      tokens'.map (·.toLexeme) = [⟨.ident, "a"⟩, ⟨.operator, "/"⟩, ⟨.operator, "*"⟩,
        ⟨.number, "1.5"⟩, ⟨.punct, "."⟩, ⟨.ident, "x"⟩, ⟨.string, "\n"⟩] := by
  have hok : (tokenize "f" "a/*1.5.x'\n'").isOk = true := by decide +kernel
  have hslices : (tokenize "f" "a/*1.5.x'\n'").toOption.map (fun tokens =>
      tokens.dropLast.map (·.span.slice "a/*1.5.x'\n'")) =
      some ["a", "/", "*", "1.5", ".", "x", "'\n'"] := by decide +kernel
  have hlexemes : (tokenize "f" "a/*1.5.x'\n'").toOption.map (fun tokens =>
      tokens.dropLast.map (·.toLexeme)) =
      some [⟨.ident, "a"⟩, ⟨.operator, "/"⟩, ⟨.operator, "*"⟩, ⟨.number, "1.5"⟩, ⟨.punct, "."⟩,
        ⟨.ident, "x"⟩, ⟨.string, "\n"⟩] := by decide +kernel
  obtain ⟨tokens, h⟩ := Except.exists_of_isOk hok
  rw [h] at hslices hlexemes
  obtain ⟨words, -, hwords, hagain⟩ := tokenize_spaced h
  obtain rfl : words = ["a", "/", "*", "1.5", ".", "x", "'\n'"] :=
    (hwords (by decide +kernel)).trans (Option.some.inj hslices)
  obtain ⟨tokens', last, hscan, hsame, -⟩ := hagain "g" "\t" [" ", "\n", "\r", " ", "\n", " ", "\n"]
    rfl (by simp) (by simp)
  have hsource : "\t" ++ spaced ["a", "/", "*", "1.5", ".", "x", "'\n'"]
      [" ", "\n", "\r", " ", "\n", " ", "\n"] = "\ta /\n*\r1.5 .\nx '\n'\n" := by decide +kernel
  rw [hsource] at hscan
  exact ⟨tokens, tokens', last, h, hscan, hsame, hsame.trans (Option.some.inj hlexemes)⟩

end Syntree
