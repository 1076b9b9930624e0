import Syntree.Proofs.Recognition
import Syntree.Token.Reader

/-!
Where a string literal ends, as it can be read off the text: at the first double quote that no
backslash takes along. Where there is none, a literal is not read at all, whatever the search for a
quote comes up with.
-/

namespace Syntree

namespace Lexical

open Text

variable {c d : Char} {cs rest text u : List Char} {i n q : Nat}

/-- Whether the character at an index is a backslash that does not itself stand behind one that
takes it along. -/
def unpaired (cs : List Char) : Nat → Bool
  | 0 => cs[0]? == some '\\'
  | i + 1 => cs[i + 1]? == some '\\' && !unpaired cs i

/-- Whether a double quote stands at an index, and not directly behind an unpaired backslash. -/
def closes (cs : List Char) : Nat → Bool
  | 0 => cs[0]? == some '"'
  | i + 1 => cs[i + 1]? == some '"' && !unpaired cs i

/-- The first quote of a text that closes a literal. -/
structure ClosedAt (cs : List Char) (q : Nat) : Prop where
  closes : closes cs q = true
  first : ∀ i < q, Lexical.closes cs i = false

/-! Pairs are counted from the start -/

theorem unpaired_cons (hc : c ≠ '\\') (cs : List Char) (i : Nat) :
    unpaired (c :: cs) (i + 1) = unpaired cs i := by
  induction i with
  | zero => simp [unpaired, hc]
  | succ i ih => rw [unpaired, ih, unpaired, List.getElem?_cons_succ]

theorem unpaired_pair (d : Char) (cs : List Char) (i : Nat) :
    unpaired ('\\' :: d :: cs) (i + 2) = unpaired cs i := by
  induction i with
  | zero => simp [unpaired]
  | succ i ih => rw [unpaired, ih, unpaired, List.getElem?_cons_succ, List.getElem?_cons_succ]

theorem closes_cons (hc : c ≠ '\\') (cs : List Char) (i : Nat) :
    closes (c :: cs) (i + 1) = closes cs i := by
  cases i with
  | zero => simp [closes, unpaired, hc]
  | succ i => rw [closes, unpaired_cons hc, closes, List.getElem?_cons_succ]

theorem closes_pair (d : Char) (cs : List Char) (i : Nat) :
    closes ('\\' :: d :: cs) (i + 2) = closes cs i := by
  cases i with
  | zero => simp [closes, unpaired]
  | succ i =>
    rw [closes, unpaired_pair, closes, List.getElem?_cons_succ, List.getElem?_cons_succ]

theorem closes_escape (d : Char) (cs : List Char) (hi : i < 2) :
    closes ('\\' :: d :: cs) i = false := by
  obtain rfl | rfl : i = 0 ∨ i = 1 := by omega
  · simp [closes]
  · simp [closes, unpaired]

/-- The search for the closing quote finds the first that closes. -/
theorem closingQuote_eq_some (h : closingQuote cs = some q) : ClosedAt cs q := by
  induction cs using closingQuote.induct generalizing q with
  | case1 => cases h
  | case2 d cs ih =>
    rw [closingQuote, Option.map_eq_some_iff] at h
    obtain ⟨m, hm, rfl⟩ := h
    refine ⟨by rw [closes_pair]; exact (ih hm).closes, fun i hi => ?_⟩
    rcases Nat.lt_or_ge i 2 with hlt | hge
    · exact closes_escape d cs hlt
    · obtain ⟨j, rfl⟩ := Nat.exists_eq_add_of_le' hge
      rw [closes_pair]
      exact (ih hm).first j (by omega)
  | case3 cs _ =>
    simp only [closingQuote, if_true, Option.some.injEq] at h
    subst h
    exact ⟨by simp [closes], fun i hi => absurd hi (Nat.not_lt_zero i)⟩
  | case4 c cs hn hc ih =>
    rw [closingQuote.eq_3 _ _ hn, if_neg hc, Option.map_eq_some_iff] at h
    obtain ⟨m, hm, rfl⟩ := h
    have hback : c ≠ '\\' := by
      rintro rfl
      cases cs with
      | nil => cases hm
      | cons d cs => exact hn d cs rfl rfl
    refine ⟨by rw [closes_cons hback]; exact (ih hm).closes, fun i hi => ?_⟩
    cases i with
    | zero => simp [closes, hc]
    | succ i =>
      rw [closes_cons hback]
      exact (ih hm).first i (by omega)

theorem closingQuote_eq_none (h : closingQuote cs = none) (i : Nat) : closes cs i = false := by
  induction cs using closingQuote.induct generalizing i with
  | case1 => cases i <;> simp [closes]
  | case2 d cs ih =>
    rw [closingQuote, Option.map_eq_none_iff] at h
    rcases Nat.lt_or_ge i 2 with hlt | hge
    · exact closes_escape d cs hlt
    · obtain ⟨j, rfl⟩ := Nat.exists_eq_add_of_le' hge
      rw [closes_pair]
      exact ih h j
  | case3 cs _ => simp [closingQuote] at h
  | case4 c cs hn hc ih =>
    rw [closingQuote.eq_3 _ _ hn, if_neg hc, Option.map_eq_none_iff] at h
    cases i with
    | zero => simp [closes, hc]
    | succ i =>
      by_cases hback : c = '\\'
      · -- a backslash at the very end
        obtain rfl : cs = [] := by
          cases cs with
          | nil => rfl
          | cons d cs => exact absurd rfl (fun h => hn d cs hback h)
        cases i <;> simp [closes]
      · rw [closes_cons hback]
        exact ih h i

theorem ClosedAt.unique (h : ClosedAt cs q) (h' : ClosedAt cs n) : q = n := by
  rcases Nat.lt_trichotomy q n with hlt | heq | hlt
  · have hq := h'.first q hlt
    rw [h.closes] at hq
    cases hq
  · exact heq
  · have hn := h.first n hlt
    rw [h'.closes] at hn
    cases hn

theorem ClosedAt.closingQuote (h : ClosedAt cs q) : closingQuote cs = some q := by
  cases hc : Lexical.closingQuote cs with
  | none =>
    have hq := closingQuote_eq_none hc q
    rw [h.closes] at hq
    cases hq
  | some n => rw [h.unique (closingQuote_eq_some hc)]

theorem lastQuote_eq_none_iff : lastQuote cs = none ↔ '"' ∉ cs := by
  induction cs with
  | nil => simp [lastQuote]
  | cons c cs ih =>
    cases hl : lastQuote cs with
    | none =>
      have hcs := ih.mp hl
      by_cases hc : c = '"' <;> simp [lastQuote, hl, hc, hcs, eq_comm]
    | some n =>
      have hcs : '"' ∈ cs := by
        refine Decidable.byContradiction fun hcs => ?_
        rw [ih.mpr hcs] at hl
        cases hl
      simp [lastQuote, hl, hcs]

theorem singleQuote_eq_none (h : '\x27' ∉ cs) : singleQuote cs = none := by
  induction cs with
  | nil => rfl
  | cons c cs ih =>
    obtain ⟨hc, hcs⟩ := not_or.mp (mt List.mem_cons.mpr h)
    rw [singleQuote, if_neg (Ne.symm hc), ih hcs]
    rfl

/-! The pattern -/

/-- How far `(\\.|[^"])*"` matches, the closing quote left out. An escape is tried before its
backslash alone, and the repetition goes on as long as it can. -/
def contentMatch : List Char → Option Nat
  | [] => none
  | '\\' :: d :: cs =>
    (if d = '\n' then none else (contentMatch cs).map (· + 2)).or
      ((contentMatch (d :: cs)).map (· + 1))
  | c :: cs => if c = '"' then some 0 else (contentMatch cs).map (· + 1)

theorem lastQuote_cons (c : Char) (cs : List Char) :
    lastQuote (c :: cs) =
      ((lastQuote cs).map (· + 1)).or (if c = '"' then some 0 else none) := by
  cases hl : lastQuote cs <;> simp [lastQuote, hl]

theorem closingQuote_none_of_last (h : lastQuote cs = none) : closingQuote cs = none := by
  cases hc : closingQuote cs with
  | none => rfl
  | some q =>
    exact absurd (List.mem_of_getElem? (closingQuote_at hc)) (lastQuote_eq_none_iff.mp h)

/-- The first quote that closes decides the match. Only where there is none does a match give back
an escape, and then the last that has a quote in it. -/
theorem contentMatch_eq (cs : List Char) :
    contentMatch cs = (closingQuote cs).or (lastQuote cs) := by
  induction cs using contentMatch.induct with
  | case1 => rfl
  | case2 d cs ih ihd =>
    have hback : lastQuote ('\\' :: d :: cs) = (lastQuote (d :: cs)).map (· + 1) := by
      rw [lastQuote_cons, if_neg (by decide), Option.or_none]
    rw [contentMatch, ih, ihd, closingQuote, hback]
    cases hl : lastQuote cs with
    | none =>
      have hc := closingQuote_none_of_last hl
      by_cases hd : d = '"'
      · simp [hd, hc, hl, closingQuote, lastQuote_cons]
      · have hlast : lastQuote (d :: cs) = none := by simp [lastQuote_cons, hl, hd]
        simp [hc, hlast, closingQuote_none_of_last hlast]
    | some n =>
      by_cases hd : d = '\n'
      · cases hc : closingQuote cs <;> simp [hd, hc, hl, closingQuote, lastQuote_cons]
      · cases hc : closingQuote cs <;> simp [hd, hl, lastQuote_cons]
  | case3 cs hn => simp [contentMatch.eq_3 _ _ hn, closingQuote.eq_3 _ _ hn]
  | case4 c cs hn hc ih =>
    rw [contentMatch.eq_3 _ _ hn, closingQuote.eq_3 _ _ hn, lastQuote_cons, ih]
    cases closingQuote cs <;> simp [hc]

/-- A double-quoted string is what the pattern matches. -/
theorem string_pattern (cs : List Char) :
    string ('"' :: cs) = ((contentMatch cs).map (· + 2)).getD 0 := by
  rw [contentMatch_eq, string]

/-- Text that was cut out has a value, unless an escape in it is refused. -/
theorem invalidEscape_of_valueOf {kind : TokenKind} {cause : Cause}
    (h : valueOf kind text = .error cause) : ∃ sequence, cause = .invalidEscape sequence := by
  unfold valueOf at h
  split at h
  · dsimp only at h
    split at h
    · split at h
      · cases h
      · exact ⟨_, (Except.error.inj h).symm⟩
    · cases h
  · cases h

end Lexical

/-! Reading on from any place -/

namespace Reader

open Lexical Text

variable {r : Reader} {kind : TokenKind} {rest text u : List Char} {q : Nat}

/-- Adds a token made of the next `n` characters, and passes over them. -/
def emit (r : Reader) (l : Lexeme) (n : Nat) : Reader :=
  let stop := r.place.after (r.rest.take n)
  { r with
    place := stop
    rest := r.rest.drop n
    tokens := r.tokens ++ [⟨l, ⟨r.position, .ofPlace r.file stop⟩⟩] }

/-- Reads one token, if there is anything left. -/
def next (r : Reader) : Except Error Reader :=
  match r.rest with
  | [] => .ok r
  | c :: rest =>
    match classify (c :: rest) with
    | none => .error ⟨unmatched c, r.position⟩
    | some (kind, extra) =>
      match valueOf kind (c :: rest.take extra) with
      | .error cause => .error ⟨cause, r.position⟩
      | .ok value => .ok (r.emit ⟨kind, value⟩ (extra + 1))

/-- The rest of a source is read token by token. -/
theorem finish_next (r : Reader) : r.finish = r.next.bind finish := by
  obtain ⟨file, place, rest, tokens⟩ := r
  cases rest with
  | nil => rfl
  | cons c rest =>
    unfold next
    simp only [finish, tokensFrom, pieces.eq_def (c :: rest)]
    cases hc : classify (c :: rest) with
    | none => simp [endOf, Except.map, Except.bind, position]
    | some m =>
      obtain ⟨kind, extra⟩ := m
      cases hv : valueOf kind (c :: rest.take extra) with
      | error cause => simp [endOf, Except.map, Except.bind, position, hv]
      | ok value =>
        simp only [hv, Except.bind, emit, finish, tokensFrom, List.take_succ_cons,
          List.drop_succ_cons, endOf, List.foldl_cons, placed]
        cases (pieces (rest.drop extra)).2 <;> simp [Except.map, position]

/-- A source is read from its start. -/
theorem scan_eq_finish (file source : String) :
    scan file source = (ofSource file source).finish := by
  rw [scan, finish, ofSource]
  cases tokensFrom file Place.start source.toList <;> rfl

theorem next_of_recognised (hr : r.rest = text ++ u) (h : Recognised kind text u) :
    r.next = match valueOf kind text with
      | .error cause => .error ⟨cause, r.position⟩
      | .ok value => .ok (r.emit ⟨kind, value⟩ text.length) := by
  obtain ⟨c, cs, rfl, hc⟩ := h.classify
  rw [List.cons_append] at hr
  simp only [next, hr, hc, List.take_left]
  rfl

/-- A literal that is closed is read up to its closing quote. -/
theorem next_closed (hr : r.rest = '"' :: rest) (hq : ClosedAt rest q) :
    (∀ v, unescape (rest.take q) = .ok v →
      r.next = .ok (r.emit ⟨.string, .ofList v⟩ (q + 2))) ∧
    ∀ sequence, unescape (rest.take q) = .error sequence →
      r.next = .error ⟨.invalidEscape (.ofList sequence), r.position⟩ := by
  have hclose := hq.closingQuote
  obtain ⟨hsplit, hlen⟩ := split_at (closingQuote_at hclose)
  have hrec : Recognised .string ('"' :: (rest.take q ++ ['"'])) (rest.drop (q + 1)) :=
    .double (by rw [closingQuote_take hclose, hlen])
  have hnext := next_of_recognised (r := r) (by rw [hr, List.cons_append, ← hsplit]) hrec
  constructor
  · intro v hv
    simpa [valueOf, hv, hlen] using hnext
  · intro sequence hv
    simpa [valueOf, hv] using hnext

/-- A literal that is not closed is never read. -/
theorem next_unclosed (hr : r.rest = '"' :: rest) (hq : closingQuote rest = none) :
    ('"' ∉ rest → r.next = .error ⟨.unterminatedString, r.position⟩) ∧
    ('"' ∈ rest → ∃ sequence, r.next = .error ⟨.invalidEscape sequence, r.position⟩) := by
  have hkind : kindAt '"' = some .string := by decide
  constructor
  · intro hnone
    have hs : string ('"' :: rest) = 0 := by
      rw [string, hq, lastQuote_eq_none_iff.mpr hnone]
      rfl
    have hc : classify ('"' :: rest) = none := by rw [classify_quote hkind, hs, matched]
    simp only [next, hr, hc]
    rfl
  · intro hmem
    cases hl : lastQuote rest with
    | none => exact absurd hmem (lastQuote_eq_none_iff.mp hl)
    | some n =>
      have hs : string ('"' :: rest) = n + 2 := by
        rw [string, hq, hl]
        rfl
      have hc : classify ('"' :: rest) = some (.string, n + 1) := by
        rw [classify_quote hkind, hs, matched]
      cases hv : valueOf .string ('"' :: rest.take (n + 1)) with
      | ok value =>
        have hsome := closed_of_value hc hv
        rw [hq] at hsome
        cases hsome
      | error cause =>
        obtain ⟨sequence, rfl⟩ := invalidEscape_of_valueOf hv
        refine ⟨sequence, ?_⟩
        simp only [next, hr, hc, hv]

/-- A raw literal runs to the next single quote. -/
theorem next_raw (hr : r.rest = '\x27' :: rest) :
    (∀ content u, rest = content ++ '\x27' :: u → '\x27' ∉ content →
      r.next = .ok (r.emit ⟨.string, .ofList content⟩ (content.length + 2))) ∧
    ('\x27' ∉ rest → r.next = .error ⟨.unterminatedString, r.position⟩) := by
  constructor
  · rintro content u rfl hcontent
    have hrec : Recognised .string ('\x27' :: (content ++ ['\x27'])) u := .single hcontent
    have hnext := next_of_recognised (r := r) (by simp [hr]) hrec
    simpa [valueOf] using hnext
  · intro hnone
    have hs : string ('\x27' :: rest) = 0 := by
      rw [string, singleQuote_eq_none hnone]
      rfl
    have hc : classify ('\x27' :: rest) = none := by rw [classify_quote (by decide), hs, matched]
    simp only [next, hr, hc]
    rfl

/-- Where a string literal ends, wherever reading has come to it. -/
theorem string_ends (r : Reader) (rest : List Char) :
    r.finish = r.next.bind finish ∧
    (r.rest = '"' :: rest →
      (∀ q, ClosedAt rest q →
        (∀ v, unescape (rest.take q) = .ok v →
          r.next = .ok (r.emit ⟨.string, .ofList v⟩ (q + 2))) ∧
        ∀ sequence, unescape (rest.take q) = .error sequence →
          r.next = .error ⟨.invalidEscape (.ofList sequence), r.position⟩) ∧
      ((∀ q, ¬ ClosedAt rest q) →
        ('"' ∉ rest → r.next = .error ⟨.unterminatedString, r.position⟩) ∧
        ('"' ∈ rest → ∃ sequence, r.next = .error ⟨.invalidEscape sequence, r.position⟩))) ∧
    (r.rest = '\x27' :: rest →
      (∀ content u, rest = content ++ '\x27' :: u → '\x27' ∉ content →
        r.next = .ok (r.emit ⟨.string, .ofList content⟩ (content.length + 2))) ∧
      ('\x27' ∉ rest → r.next = .error ⟨.unterminatedString, r.position⟩)) := by
  refine ⟨finish_next r, fun hr => ⟨fun q hq => next_closed hr hq, fun hnone => ?_⟩, next_raw⟩
  apply next_unclosed hr
  cases hc : closingQuote rest with
  | none => rfl
  | some q => exact absurd (closingQuote_eq_some hc) (hnone q)

/-- An escaped quote closes nothing: behind it the literal goes on, or is not read at all. -/
theorem string_ends_escaped :
    (⟨"f", ⟨5, 2, 3⟩, ['"', '\\', '"', '\n', '"', ';'], []⟩ : Reader).next =
      .ok ⟨"f", ⟨10, 3, 2⟩, [';'],
        [⟨⟨.string, "\"\n"⟩, ⟨⟨"f", 5, 2, 3⟩, ⟨"f", 10, 3, 2⟩⟩⟩]⟩ ∧
    (∃ sequence, (⟨"f", ⟨5, 2, 3⟩, ['"', 'a', '\\', '"', ';'], []⟩ : Reader).finish =
      .error ⟨.invalidEscape sequence, ⟨"f", 5, 2, 3⟩⟩) ∧
    (⟨"f", ⟨5, 2, 3⟩, ['\x27', '\\', '\x27'], []⟩ : Reader).next =
      .ok ⟨"f", ⟨8, 2, 6⟩, [], [⟨⟨.string, "\\"⟩, ⟨⟨"f", 5, 2, 3⟩, ⟨"f", 8, 2, 6⟩⟩⟩]⟩ := by
  have hclosed : ClosedAt ['\\', '"', '\n', '"', ';'] 3 := ⟨by decide, by decide⟩
  have hopen : ∀ q, ¬ ClosedAt ['a', '\\', '"', ';'] q := by
    intro q hq
    have hnone : closingQuote ['a', '\\', '"', ';'] = none := by decide
    rw [hq.closingQuote] at hnone
    cases hnone
  refine ⟨?_, ?_, ?_⟩
  · have hread := ((string_ends ⟨"f", ⟨5, 2, 3⟩, ['"', '\\', '"', '\n', '"', ';'], []⟩
      ['\\', '"', '\n', '"', ';']).2.1 rfl).1 3 hclosed
    exact hread.1 ['"', '\n'] (by simp [unescape, simpleEscape, Except.map])
  · obtain ⟨hfinish, hdouble, -⟩ :=
      string_ends ⟨"f", ⟨5, 2, 3⟩, ['"', 'a', '\\', '"', ';'], []⟩ ['a', '\\', '"', ';']
    obtain ⟨sequence, hnext⟩ := ((hdouble rfl).2 hopen).2 (by decide)
    exact ⟨sequence, by rw [hfinish, hnext]; rfl⟩
  · exact ((string_ends ⟨"f", ⟨5, 2, 3⟩, ['\x27', '\\', '\x27'], []⟩ ['\\', '\x27']).2.2 rfl).1
      ['\\'] [] rfl (by decide)

end Reader

end Syntree
