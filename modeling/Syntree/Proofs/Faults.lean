import Mathlib.Data.List.Forall2
import Syntree.Proofs.Recognition

/-!
A fault is found where it is, from the text behind it alone: what comes before it is cut in the same
way when the text ends there, and the rest of a text is cut as a text of its own.
-/

namespace Syntree

namespace Lexical

open Text

variable {cs text u v : List Char} {kind : TokenKind} {ps qs : List Piece} {fault : Option Cause}

/-! A text that ends early -/

theorem head?_append_of_mem {d : Char} (h : d ∈ u.head?) (v : List Char) : d ∈ (u ++ v).head? := by
  obtain ⟨u, rfl⟩ := List.head?_eq_some_iff.mp h
  rfl

theorem endsWord_cut (h : endsWord (u ++ v) = true) : endsWord u = true := by
  cases u with
  | nil => rfl
  | cons d u => exact h

theorem comment_cut (h : comment (cs ++ v) = 0) : comment cs = 0 := by
  fun_cases comment cs with
  | case1 cs => simp [comment] at h
  | case2 cs =>
    cases hn : closeComment cs with
    | none => rfl
    | some n =>
      simp only [List.cons_append, comment, closeComment_append hn] at h
      cases h
  | case3 => rfl

/-- A token stays what it is when the text ends somewhere behind it, except that a number could lose
the reason for which it has no fraction. -/
theorem Recognised.cut (h : Recognised kind text (u ++ v))
    (hf : hasFraction (u ++ v) = false → hasFraction u = false) : Recognised kind text u := by
  apply h.exchange
  exact {
    word := endsWord_cut
    fraction := hf
    pair := fun c hall d hd => hall d (head?_append_of_mem hd v)
    bare := fun c _ hbare => comment_cut hbare
    line := fun _ hall d hd => hall d (head?_append_of_mem hd v)
    blank := fun _ hall d hd => hall d (head?_append_of_mem hd v) }

/-- A number behind a point is a fraction that could have been taken along. -/
theorem hasFraction_of_recognised {c : Char} (h : Recognised kind (c :: cs) u)
    (hc : isAsciiDigit c = true) : hasFraction ('.' :: (c :: (cs ++ u))) = true := by
  have hk := h.kindAt
  rw [kindAt_digit hc, Option.some.injEq] at hk
  cases h with
  | word starts inside ends known =>
    rw [not_isNameStart_of_digit hc] at starts
    cases starts
  | whole inside ends alone => exact hasFraction_digits (List.cons_ne_nil c cs) inside ends
  | @fraction _ cs ds _ inside behind digits ends =>
    have hpoint : endsWord ('.' :: (ds ++ u)) = true := by
      have hw : isWordChar '.' = false := by decide
      simp [endsWord, hw]
    have h := hasFraction_digits (List.cons_ne_nil c cs) inside hpoint
    simpa using h
  | _ => cases hk

theorem Recognised.point (h : Recognised kind ('.' :: cs) u) : cs = [] := by
  have hpoint : Lexical.kindAt '.' = some .punct := by decide
  have hk := h.kindAt
  rw [hpoint, Option.some.injEq] at hk
  cases h with
  | word starts => exact absurd starts (by decide)
  | punct => rfl
  | _ => cases hk

/-- A point is a piece of its own. -/
theorem pieces_point {p : Piece} (h : pieces ('.' :: cs) = (p :: ps, fault)) :
    p.text = ['.'] ∧ pieces cs = (ps, fault) := by
  obtain ⟨u, hu, hrec, -, hrest⟩ := recognised_of_pieces h
  obtain ⟨c, ds, htext, -⟩ := hrec.classify
  rw [htext] at hu hrec ⊢
  obtain ⟨rfl, rfl⟩ := List.cons.inj hu
  obtain rfl := hrec.point
  exact ⟨rfl, hrest⟩

theorem hasFraction_of_pieces {c : Char} {p : Piece} (hc : isAsciiDigit c = true)
    (h : pieces (c :: cs) = (p :: ps, fault)) : hasFraction ('.' :: c :: cs) = true := by
  obtain ⟨u, hu, hrec, -, -⟩ := recognised_of_pieces h
  obtain ⟨d, ds, htext, -⟩ := hrec.classify
  rw [htext] at hu hrec
  obtain ⟨rfl, rfl⟩ := List.cons.inj hu
  exact hasFraction_of_recognised hrec hc

/-- What follows the digits of a number has no fraction for it either when the text ends early: a
fraction that goes on as a word is no number of its own. -/
theorem hasFraction_cut (h : pieces (ps.flatMap (·.text) ++ v) = (ps, fault))
    (hf : hasFraction (ps.flatMap (·.text) ++ v) = false) :
    hasFraction (ps.flatMap (·.text)) = false := by
  cases hcut : hasFraction (ps.flatMap (·.text)) with
  | false => rfl
  | true =>
    obtain ⟨ds, rest, hsplit, hne, hdigits, -⟩ := hasFraction_split hcut
    obtain ⟨d, ds, rfl⟩ := List.exists_cons_of_ne_nil hne
    rw [hsplit] at h hf
    cases ps with
    | nil => cases hsplit
    | cons p ps =>
      obtain ⟨htext, h⟩ := pieces_point h
      rw [List.flatMap_cons, htext] at hsplit
      cases ps with
      | nil => simp at hsplit
      | cons q qs =>
        have htrue := hasFraction_of_pieces (hdigits d List.mem_cons_self) h
        exact absurd (htrue.symm.trans hf) (by decide)

/-! Pieces before and behind a place -/

/-- What is left behind some pieces is cut as a text of its own. -/
theorem pieces_behind (h : pieces cs = (ps ++ qs, fault)) :
    ∃ v, cs = ps.flatMap (·.text) ++ v ∧ pieces v = (qs, fault) := by
  induction ps generalizing cs with
  | nil => exact ⟨cs, rfl, h⟩
  | cons p ps ih =>
    obtain ⟨u, rfl, -, -, hu⟩ := recognised_of_pieces h
    obtain ⟨v, rfl, hv⟩ := ih hu
    exact ⟨v, by rw [List.flatMap_cons, List.append_assoc], hv⟩

/-- The pieces before a fault are those of the text that ends there. -/
theorem pieces_before (h : pieces cs = (ps, fault)) :
    pieces (ps.flatMap (·.text)) = (ps, none) := by
  induction ps generalizing cs with
  | nil => simp [pieces]
  | cons p ps ih =>
    obtain ⟨u, rfl, hrec, hvalue, hu⟩ := recognised_of_pieces h
    have hall : pieces u = (ps ++ [], fault) := by rwa [List.append_nil]
    obtain ⟨v, rfl, -⟩ := pieces_behind hall
    rw [List.flatMap_cons, pieces_of_recognised (hrec.cut (hasFraction_cut hu)) hvalue, ih hu]

end Lexical

/-! Positions counted from a place further on -/

/-- A position as it is counted from `origin`, which stands before it. -/
def Position.rebase (p origin : Position) : Position where
  file := p.file
  offset := p.offset - origin.offset
  line := p.line - origin.line + 1
  column := if p.line = origin.line then p.column - origin.column + 1 else p.column

def Token.rebase (t : Token) (origin : Position) : Token :=
  { t with span := ⟨t.span.start.rebase origin, t.span.stop.rebase origin⟩ }

theorem takeWhile_newline {p : Char → Bool} (hp : p '\n' = false) (cs t : List Char) :
    (cs ++ '\n' :: t).takeWhile p = cs.takeWhile p := by
  induction cs with
  | nil => simp [hp]
  | cons c cs ih => simp only [List.cons_append, List.takeWhile_cons, ih]

theorem sinceNewline_append (before text : List Char) : sinceNewline (before ++ text) =
    if '\n' ∈ text then sinceNewline text else sinceNewline before + text.length := by
  unfold sinceNewline
  rw [List.reverse_append]
  split
  · next h =>
    obtain ⟨xs, ys, hsplit⟩ := List.append_of_mem (List.mem_reverse.mpr h)
    rw [hsplit, List.append_assoc, List.cons_append, takeWhile_newline (by decide),
      takeWhile_newline (by decide)]
  · next h =>
    have hall : ∀ c ∈ text.reverse, (c != '\n') = true := by
      intro c hc
      rw [bne_iff_ne]
      rintro rfl
      exact h (List.mem_reverse.mp hc)
    rw [List.takeWhile_append_of_pos hall, List.length_append, List.length_reverse, Nat.add_comm]

theorem toUInt32_add_sub (m n : Nat) : (m + n).toUInt32 - m.toUInt32 = n.toUInt32 := by
  have h : (m + n).toUInt32 = m.toUInt32 + n.toUInt32 := UInt32.ofNat_add m n
  rw [h, UInt32.add_comm, UInt32.add_sub_cancel]

theorem toUInt32_one_add (n : Nat) : (1 + n).toUInt32 = n.toUInt32 + 1 := by
  have h : (1 + n).toUInt32 = (1 : Nat).toUInt32 + n.toUInt32 := UInt32.ofNat_add 1 n
  rw [h, UInt32.add_comm]
  rfl

/-- Fewer than `2 ^ 32` lines further on is the same line only if it is none further on. -/
theorem toUInt32_add_eq_iff {m n : Nat} (hn : n < 2 ^ 32) :
    (m + n).toUInt32 = m.toUInt32 ↔ n = 0 := by
  constructor
  · intro h
    have hsub := toUInt32_add_sub m n
    rw [h, UInt32.sub_self] at hsub
    have hzero := congrArg UInt32.toNat hsub
    rw [Nat.toUInt32, UInt32.toNat_ofNat_of_lt' hn] at hzero
    exact hzero.symm
  · intro h
    rw [h, Nat.add_zero]

theorem Position.rebase_behind (file : String) {before text : List Char}
    (h : bytes (before ++ text) < 2 ^ 32) :
    (ofPlace file (.behind (before ++ text))).rebase (ofPlace file (.behind before)) =
      ofPlace file (.behind text) := by
  have hcount : text.count '\n' < 2 ^ 32 := by
    have hle := Place.count_newline_le text
    rw [bytes_append] at h
    omega
  have hline : (1 + before.count '\n' + text.count '\n').toUInt32 =
      (1 + before.count '\n').toUInt32 ↔ '\n' ∉ text :=
    (toUInt32_add_eq_iff hcount).trans List.count_eq_zero
  have hown := sinceNewline_append [] text
  have hsum := sinceNewline_append before text
  simp only [rebase, ofPlace, Place.behind, Position.mk.injEq, true_and, bytes_append,
    List.count_append, ← Nat.add_assoc, toUInt32_add_sub, toUInt32_one_add (text.count '\n')]
  by_cases hm : '\n' ∈ text
  · rw [if_pos hm] at hsum
    rw [if_neg (mt hline.mp (not_not_intro hm)), hsum]
  · rw [if_neg hm] at hsum
    rw [List.nil_append, if_neg hm] at hown
    rw [if_pos (hline.mpr hm), hsum, hown, ← Nat.add_assoc, toUInt32_add_sub, toUInt32_one_add]
    simp [sinceNewline]

/-- A token of a text, and the same token where that text stands behind `before` in `source`. -/
structure Token.Shifted (file : String) (before source : List Char) (t shifted : Token) :
    Prop where
  lexeme : t.toLexeme = shifted.toLexeme
  stands : ∃ start stop, t.span = ⟨.ofPlace file (.behind start), .ofPlace file (.behind stop)⟩ ∧
    shifted.span = ⟨.ofPlace file (.behind (before ++ start)),
      .ofPlace file (.behind (before ++ stop))⟩ ∧
    start <+: stop ∧ before ++ stop <+: source

theorem bytes_mono {a b : List Char} (h : a <+: b) : bytes a ≤ bytes b := by
  obtain ⟨c, rfl⟩ := h
  rw [bytes_append]
  exact Nat.le_add_right ..

theorem Token.Shifted.rebase {file : String} {before source : List Char} {t shifted : Token}
    (h : t.Shifted file before source shifted) (hsize : bytes source < 2 ^ 32) :
    t = shifted.rebase (.ofPlace file (.behind before)) := by
  obtain ⟨hlexeme, start, stop, hspan, hshifted, hle, hin⟩ := h
  have hstop : bytes (before ++ stop) < 2 ^ 32 :=
    Nat.lt_of_le_of_lt (bytes_mono hin) hsize
  have hstart : bytes (before ++ start) < 2 ^ 32 :=
    Nat.lt_of_le_of_lt (bytes_mono ((List.prefix_append_right_inj before).mpr hle)) hstop
  cases t
  cases shifted
  simp only at hlexeme hspan hshifted
  subst hlexeme hspan hshifted
  simp [Token.rebase, Position.rebase_behind file hstart, Position.rebase_behind file hstop]

namespace Lexical

variable {file : String}

theorem placed_shifted (file : String) (before text : List Char) (ps : List Piece) :
    List.Forall₂ (Token.Shifted file before (before ++ (text ++ ps.flatMap (·.text))))
      (placed file (.behind text) ps) (placed file (.behind (before ++ text)) ps) := by
  induction ps generalizing text with
  | nil => exact .nil
  | cons q ps ih =>
    rw [placed, placed, Place.behind_after, Place.behind_after]
    have hrest := ih (text ++ q.text)
    rw [List.append_assoc text, ← List.append_assoc before] at hrest
    refine .cons ⟨rfl, text, text ++ q.text, rfl, ?_, List.prefix_append .., ?_⟩ ?_
    · rw [List.append_assoc]
    · simp [List.prefix_append_right_inj]
    · simpa using hrest

/-- The tokens from some token on are those of the pieces behind the place where it starts. -/
theorem placed_split (text : List Char) {ps : List Piece} {earlier later : List Token} {t : Token}
    (h : placed file (.behind text) ps ++
      [eofAt (.ofPlace file (.behind (text ++ ps.flatMap (·.text))))] = earlier ++ t :: later) :
    ∃ qs rs, ps = qs ++ rs ∧
      t.span.start = .ofPlace file (.behind (text ++ qs.flatMap (·.text))) ∧
      t :: later = placed file (.behind (text ++ qs.flatMap (·.text))) rs ++
        [eofAt (.ofPlace file (.behind (text ++ ps.flatMap (·.text))))] := by
  induction ps generalizing text earlier with
  | nil =>
    obtain ⟨rfl, hsame⟩ | ⟨e, rfl, hcons⟩ := List.cons_eq_append_iff.mp h
    · obtain ⟨rfl, rfl⟩ := List.cons.inj hsame
      exact ⟨[], [], rfl, by simp [eofAt], by simp [placed]⟩
    · simp at hcons
  | cons q ps ih =>
    cases earlier with
    | nil =>
      rw [List.nil_append] at h
      have ht : t.span.start = .ofPlace file (.behind text) := by
        rw [placed, List.cons_append, List.cons.injEq] at h
        rw [← h.1]
      exact ⟨[], q :: ps, rfl, by simp [ht], by simp [← h]⟩
    | cons e earlier =>
      rw [placed, Place.behind_after, List.flatMap_cons, ← List.append_assoc text] at h
      obtain ⟨qs, rs, rfl, hstart, htokens⟩ := ih _ (List.cons.inj h).2
      exact ⟨q :: qs, rs, rfl, by simp [hstart], by simp [htokens]⟩

end Lexical

theorem scan_of_fault (file : String) {source : String} {cause : Cause}
    (h : Lexical.pieces source.toList = ([], some cause)) :
    scan file source = .error ⟨cause, .startOf file⟩ := by
  simp only [scan, Lexical.tokensFrom, h]
  rfl

/-- The tokens of a source up to its first fault. -/
def emitted (file source : String) : List Token :=
  Lexical.placed file .start (Lexical.pieces source.toList).1

theorem scan_error {file source : String} {e : Error} (h : scan file source = .error e) :
    ∃ ps, Lexical.pieces source.toList = (ps, some e.cause) ∧
      e.position = .ofPlace file (Lexical.endOf .start ps) := by
  simp only [scan, Lexical.tokensFrom] at h
  cases hp : Lexical.pieces source.toList with
  | mk ps fault =>
    cases fault with
    | none => simp [hp] at h
    | some cause =>
      simp only [hp, Except.error.injEq] at h
      exact ⟨ps, by rw [← h], by rw [← h]⟩

/-- A source that fails can be split at the place its error names. -/
theorem scan_error_at {file source : String} {e : Error} (h : scan file source = .error e) :
    ∃ s₁ s₂ : String, source = s₁ ++ s₂ ∧ s₂ ≠ "" ∧
      e.position = .ofPlace file (.behind s₁.toList) ∧
      scan file s₁ = .ok (emitted file source ++ [Lexical.eofAt e.position]) ∧
      scan file s₂ = .error ⟨e.cause, .startOf file⟩ := by
  obtain ⟨ps, hp, hposition⟩ := scan_error h
  have hall : Lexical.pieces source.toList = (ps ++ [], some e.cause) := by rwa [List.append_nil]
  obtain ⟨v, hsource, hv⟩ := Lexical.pieces_behind hall
  have hne : v ≠ [] := by
    intro hnil
    simp [hnil, Lexical.pieces] at hv
  have hbefore : Lexical.pieces (String.ofList (ps.flatMap (·.text))).toList = (ps, none) := by
    rw [String.toList_ofList]
    exact Lexical.pieces_before hp
  have hat : e.position = .ofPlace file (.behind (ps.flatMap (·.text))) := by
    rw [hposition, Lexical.endOf_start]
  refine ⟨.ofList (ps.flatMap (·.text)), .ofList v, ?_, by simpa using hne, ?_, ?_, ?_⟩
  · rw [← String.ofList_append, ← hsource, String.ofList_toList]
  · rw [String.toList_ofList, hat]
  · rw [scan_of_pieces file hbefore, emitted, hp, hat, String.toList_ofList]
  · exact scan_of_fault file (by rw [String.toList_ofList, hv])

/-- From any of its tokens on, a source is cut as a text of its own. -/
theorem scan_from_token {file source : String} {earlier later : List Token} {t : Token}
    (h : scan file source = .ok (earlier ++ t :: later)) :
    ∃ s₁ s₂ : String, source = s₁ ++ s₂ ∧ t.span.start = .ofPlace file (.behind s₁.toList) ∧
      ∃ tokens, scan file s₂ = .ok tokens ∧
        List.Forall₂ (Token.Shifted file s₁.toList source.toList) tokens (t :: later) := by
  obtain ⟨ps, hp, htokens⟩ := scan_eq h
  rw [Lexical.endOf_start] at htokens
  obtain ⟨qs, rs, rfl, hstart, hlater⟩ := Lexical.placed_split [] htokens.symm
  rw [List.nil_append] at hstart hlater
  obtain ⟨v, hsource, hv⟩ := Lexical.pieces_behind hp
  have hrest : Lexical.pieces (String.ofList v).toList = (rs, none) := by
    rwa [String.toList_ofList]
  refine ⟨.ofList (qs.flatMap (·.text)), .ofList v, ?_, ?_, _, scan_of_pieces file hrest, ?_⟩
  · rw [← String.ofList_append, ← hsource, String.ofList_toList]
  · rw [hstart, String.toList_ofList]
  · have htext : qs.flatMap (·.text) ++ v = source.toList := hsource.symm
    have hv' := Lexical.text_of_pieces hv
    have hshifted := Lexical.placed_shifted file (qs.flatMap (·.text)) [] rs
    rw [List.nil_append, List.append_nil, hv', htext] at hshifted
    rw [hlater, String.toList_ofList, String.toList_ofList, List.flatMap_append, hv', htext]
    have hin : qs.flatMap (·.text) ++ v <+: source.toList := ⟨[], by rw [List.append_nil, htext]⟩
    refine List.rel_append hshifted (.cons ⟨rfl, v, v, rfl, ?_, List.prefix_rfl, hin⟩ .nil)
    rw [htext]
    rfl

/-- A source that fails does so at a place of its own: up to there it is scanned, and from there on
it fails at once and for the same reason. A source that is scanned can be cut where any of its
tokens starts. -/
theorem scan_localised (file source : String) :
    (source.utf8ByteSize < 2 ^ 32 → ∀ e, scan file source = .error e →
      ∃ s₁ s₂ : String, source = s₁ ++ s₂ ∧ s₂ ≠ "" ∧
        e.position.file = file ∧ e.position.offset.toNat = s₁.utf8ByteSize ∧
        e.position.line.toNat = 1 + s₁.toList.count '\n' ∧
        e.position.column.toNat = 1 + sinceNewline s₁.toList ∧
        scan file s₁ = .ok (emitted file source ++ [Lexical.eofAt e.position]) ∧
        scan file s₂ = .error ⟨e.cause, .startOf file⟩) ∧
    ∀ earlier t later, scan file source = .ok (earlier ++ t :: later) →
      ∃ s₁ s₂ : String, source = s₁ ++ s₂ ∧ t.span.start = .ofPlace file (.behind s₁.toList) ∧
        ∃ tokens, scan file s₂ = .ok tokens ∧
          List.Forall₂ (Token.Shifted file s₁.toList source.toList) tokens (t :: later) ∧
          (source.utf8ByteSize < 2 ^ 32 → t.span.start.offset.toNat = s₁.utf8ByteSize ∧
            tokens = (t :: later).map (·.rebase t.span.start)) := by
  constructor
  · intro hsize e h
    obtain ⟨s₁, s₂, rfl, hne, hat, hbefore, hbehind⟩ := scan_error_at h
    have hbytes := bytes_append s₁.toList s₂.toList
    have hpos := bytes_pos (mt String.toList_eq_nil_iff.mp hne)
    rw [← String.toList_append] at hbytes
    rw [← bytes_toList, hbytes] at hsize
    have hmarks : e.position.Marks file s₁.toList := by
      rw [hat]
      exact Position.marks_behind file (by omega)
    have hexact : bytes s₁.toList + 1 < 2 ^ 32 := by omega
    refine ⟨s₁, s₂, rfl, hne, hmarks.file_eq, ?_, hmarks.line_exact hexact,
      hmarks.column_exact hexact, hbefore, hbehind⟩
    rw [hmarks.offset, bytes_toList]
  · intro earlier t later h
    obtain ⟨s₁, s₂, hsource, hstart, tokens, hscan, hshifted⟩ := scan_from_token h
    refine ⟨s₁, s₂, hsource, hstart, tokens, hscan, hshifted, ?_⟩
    intro hsize
    rw [← bytes_toList] at hsize
    have hbefore : bytes s₁.toList < 2 ^ 32 := by
      refine Nat.lt_of_le_of_lt (bytes_mono ?_) hsize
      rw [hsource, String.toList_append]
      exact List.prefix_append ..
    constructor
    · rw [hstart, (Position.marks_behind file hbefore).offset, bytes_toList]
    · have heq : List.Forall₂ (fun a b => a = b.rebase t.span.start) tokens (t :: later) := by
        refine hshifted.imp ?_
        intro a b hab
        rw [hstart]
        exact hab.rebase hsize
      rwa [← List.forall₂_map_right_iff, List.forall₂_eq_eq_eq] at heq

/-- A fraction that goes on as a word is found behind its point, and a token behind a string of two
lines is on the first line of what is left. -/
theorem scan_localised_cuts :
    (∃ e s₁ s₂, scan "f" "a 1.5x" = .error e ∧ "a 1.5x" = s₁ ++ s₂ ∧ s₁.utf8ByteSize = 4 ∧
      scan "f" s₁ = .ok (emitted "f" "a 1.5x" ++ [Lexical.eofAt e.position]) ∧
      scan "f" s₂ = .error ⟨.unrecognisedToken "5", .startOf "f"⟩) ∧
    ∃ s₁ s₂, "\"\n\"b" = s₁ ++ s₂ ∧ s₁.utf8ByteSize = 3 ∧
      scan "f" s₂ = .ok [⟨⟨.ident, "b"⟩, ⟨⟨"f", 0, 1, 1⟩, ⟨"f", 1, 1, 2⟩⟩⟩,
        ⟨.eof, ⟨⟨"f", 1, 1, 2⟩, ⟨"f", 1, 1, 2⟩⟩⟩] := by
  constructor
  · have hfault : (match scan "f" "a 1.5x" with
        | .ok _ => none
        | .error e => some (e.cause, e.position.offset.toNat)) =
        some (.unrecognisedToken "5", 4) := by decide +kernel
    cases h : scan "f" "a 1.5x" with
    | ok tokens => simp [h] at hfault
    | error e =>
      obtain ⟨s₁, s₂, hsource, -, -, hoffset, -, -, hbefore, hbehind⟩ :=
        (scan_localised "f" "a 1.5x").1 (by decide +kernel) e h
      simp only [h, Option.some.injEq, Prod.mk.injEq] at hfault
      rw [hfault.1] at hbehind
      exact ⟨e, s₁, s₂, rfl, hsource, hoffset.symm.trans hfault.2, hbefore, hbehind⟩
  · have htokens : (scan "f" "\"\n\"b").toOption = some
        [⟨⟨.string, "\n"⟩, ⟨⟨"f", 0, 1, 1⟩, ⟨"f", 3, 2, 2⟩⟩⟩,
          ⟨⟨.ident, "b"⟩, ⟨⟨"f", 3, 2, 2⟩, ⟨"f", 4, 2, 3⟩⟩⟩,
          ⟨.eof, ⟨⟨"f", 4, 2, 3⟩, ⟨"f", 4, 2, 3⟩⟩⟩] := by decide +kernel
    cases h : scan "f" "\"\n\"b" with
    | error e => simp [h, Except.toOption] at htokens
    | ok tokens =>
      rw [h] at htokens
      rw [Option.some.inj htokens] at h
      obtain ⟨s₁, s₂, hsource, -, rest, hscan, -, hexact⟩ :=
        (scan_localised "f" "\"\n\"b").2 [_] _ _ h
      obtain ⟨hoffset, rfl⟩ := hexact (by decide +kernel)
      exact ⟨s₁, s₂, hsource, hoffset.symm, hscan⟩

end Syntree
