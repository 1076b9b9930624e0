import Syntree.Proofs.Quotes

/-!
Words and numbers are taken as far as they go, and only where no word character follows. Their rules
stand for patterns that try one way after the other and give back what they have taken too much. The
patterns are run as such here, and the rules are shown to take the same.
-/

namespace Syntree

namespace Lexical

open Text

variable {c d : Char} {cs u v w : List Char} {words : List String} {p : Char → Bool}

/-- A pattern for the beginning of a text. -/
inductive Pattern where
  | empty
  /-- A character of a class. -/
  | one (p : Char → Bool)
  /-- Characters of a class, as many as possible. -/
  | many (p : Char → Bool)
  | seq (a b : Pattern)
  /-- The first of two is preferred. -/
  | alt (a b : Pattern)
  /-- A word character on one side and none on the other. -/
  | boundary

/-- A place in a text: the character in front of it and what is still to come. -/
structure Spot where
  before : Option Char
  rest : List Char

/-- The places that characters of a class lead to, the farthest first. -/
def runs (p : Char → Bool) (before : Option Char) : List Char → List Spot
  | [] => [⟨before, []⟩]
  | c :: cs => (if p c then runs p (some c) cs else []) ++ [⟨before, c :: cs⟩]

/-- The places that a pattern leads to, in the order in which they are tried. -/
def Pattern.ways : Pattern → Spot → List Spot
  | empty, s => [s]
  | one p, s =>
    match s.rest with
    | [] => []
    | c :: cs => if p c then [⟨some c, cs⟩] else []
  | many p, s => runs p s.before s.rest
  | seq a b, s => (a.ways s).flatMap b.ways
  | alt a b, s => a.ways s ++ b.ways s
  | boundary, s => if s.before.any isWordChar != s.rest.head?.any isWordChar then [s] else []

/-- What a pattern leaves behind the first way it can be met. -/
def Pattern.leaves (a : Pattern) (s : Spot) : Option (List Char) :=
  (a.ways s).head?.map Spot.rest

/-- How much a pattern takes of a text with nothing in front of it, zero if it does not match. -/
def Pattern.length (a : Pattern) (cs : List Char) : Nat :=
  ((a.leaves ⟨none, cs⟩).map fun u => cs.length - u.length).getD 0

/-! The patterns of the rules -/

def Pattern.spelt : List Char → Pattern
  | [] => .empty
  | c :: cs => .seq (.one (· == c)) (spelt cs)

def Pattern.among : List String → Pattern
  | [] => .one fun _ => false
  | w :: ws => .alt (spelt w.toList) (among ws)

def Pattern.several (p : Char → Bool) : Pattern :=
  .seq (.one p) (.many p)

/-- One of some words, with a boundary on either side. -/
def reservedPattern (words : List String) : Pattern :=
  .seq .boundary (.seq (.among words) .boundary)

def identPattern : Pattern :=
  .seq .boundary (.seq (.one isNameStart) (.seq (.many isNameChar) .boundary))

def fractionPattern : Pattern :=
  .seq (.one (· == '.')) (.several isAsciiDigit)

def numberPattern : Pattern :=
  .seq .boundary (.seq (.several isAsciiDigit) (.seq (.alt fractionPattern .empty) .boundary))

/-! Running a pattern -/

theorem ways_one_cons (p : Char → Bool) (before : Option Char) (c : Char) (cs : List Char) :
    (Pattern.one p).ways ⟨before, c :: cs⟩ = if p c then [⟨some c, cs⟩] else [] := rfl

theorem ways_seq (a b : Pattern) (s : Spot) :
    (Pattern.seq a b).ways s = (a.ways s).flatMap b.ways := rfl

theorem ways_alt (a b : Pattern) (s : Spot) : (Pattern.alt a b).ways s = a.ways s ++ b.ways s := rfl

/-- Behind a word character, a boundary is where a word may end. -/
theorem ways_boundary (hd : isWordChar d = true) (u : List Char) :
    Pattern.boundary.ways ⟨some d, u⟩ = if endsWord u then [⟨some d, u⟩] else [] := by
  cases u with
  | nil => simp [Pattern.ways, endsWord, hd]
  | cons e u => cases he : isWordChar e <;> simp [Pattern.ways, endsWord, hd, he]

theorem length_nil (a : Pattern) : a.length [] = 0 := by
  cases h : a.leaves ⟨none, []⟩ <;> simp [Pattern.length, h]

/-- A pattern that opens with a boundary opens with a word character. -/
theorem length_boundary (a : Pattern) (c : Char) (cs : List Char) :
    (Pattern.seq .boundary a).length (c :: cs) =
      if isWordChar c then a.length (c :: cs) else 0 := by
  cases hc : isWordChar c <;>
    simp [Pattern.length, Pattern.leaves, Pattern.ways, hc]

/-- Where nothing goes on from a place with a character of the class still to come, only the
farthest place counts. -/
theorem runs_flatMap {p : Char → Bool} {go : Spot → List Spot}
    (hp : ∀ e, p e = true → isWordChar e = true)
    (hgo : ∀ d e u, isWordChar d = true → p e = true → go ⟨some d, e :: u⟩ = [])
    (hc : isWordChar c = true) (cs : List Char) :
    ∃ d, isWordChar d = true ∧ (runs p (some c) cs).flatMap go = go ⟨some d, cs.dropWhile p⟩ := by
  induction cs generalizing c with
  | nil => exact ⟨c, hc, by simp [runs]⟩
  | cons e cs ih =>
    cases he : p e with
    | false => exact ⟨c, hc, by simp [runs, he]⟩
    | true =>
      obtain ⟨d, hd, heq⟩ := ih (hp e he)
      exact ⟨d, hd, by simp [runs, he, heq, hgo c e cs hc he]⟩

theorem boundary_inside {p : Char → Bool} (hp : ∀ e, p e = true → isWordChar e = true) :
    ∀ d e u, isWordChar d = true → p e = true → Pattern.boundary.ways ⟨some d, e :: u⟩ = [] := by
  intro d e u hd he
  simp [ways_boundary hd, endsWord, hp e he]

theorem length_append {a : Pattern} (h : a.leaves ⟨none, w ++ u⟩ = some u) :
    a.length (w ++ u) = w.length := by
  simp [Pattern.length, h]

theorem length_none {a : Pattern} (h : a.leaves ⟨none, cs⟩ = none) : a.length cs = 0 := by
  simp [Pattern.length, h]

/-- A choice is made before what follows it, and is made anew where that does not match. -/
theorem leaves_alt_seq (a b k : Pattern) (s : Spot) :
    (Pattern.seq (.alt a b) k).leaves s =
      ((Pattern.seq a k).leaves s).or ((Pattern.seq b k).leaves s) := by
  simp [Pattern.leaves, Pattern.ways, List.head?_append, Option.map_or]

/-! All there is of a class -/

/-- At the beginning of `w ++ u`, the characters of a class are those of `w`. -/
structure Longest (p : Char → Bool) (w u : List Char) : Prop where
  inside : ∀ e ∈ w, p e = true
  stops : ∀ e ∈ u.head?, p e = false

theorem Longest.of_cons (hw : w.all p = true) (hc : p c = false) (u : List Char) :
    Longest p w (c :: u) :=
  ⟨List.all_eq_true.mp hw, by simpa using hc⟩

theorem Longest.takeWhile (h : Longest p w u) : (w ++ u).takeWhile p = w :=
  takeWhile_stops h.inside h.stops

theorem Longest.dropWhile (h : Longest p w u) : (w ++ u).dropWhile p = u := by
  have hsplit := List.takeWhile_append_dropWhile (p := p) (l := w ++ u)
  rw [h.takeWhile] at hsplit
  exact List.append_cancel_left hsplit

theorem exists_longest (p : Char → Bool) (cs : List Char) : ∃ w u, cs = w ++ u ∧ Longest p w u := by
  obtain ⟨u, hu, hstops⟩ := takeWhile_split p cs
  exact ⟨_, u, hu, fun _ => of_mem_takeWhile, hstops⟩

theorem longest_of_ends (hp : ∀ e, p e = true → isWordChar e = true) (hw : ∀ e ∈ w, p e = true)
    (hu : endsWord u = true) : Longest p w u := by
  refine ⟨hw, fun e he => ?_⟩
  obtain ⟨u, rfl⟩ := List.head?_eq_some_iff.mp he
  cases hpe : p e with
  | false => rfl
  | true => simp [endsWord, hp e hpe] at hu

/-! Names -/

theorem ident_longest (hc : isNameStart c = true) (h : Longest isNameChar cs u) :
    ident (c :: (cs ++ u)) = if endsWord u then cs.length + 1 else 0 := by
  have hname : nameAt (c :: (cs ++ u)) = c :: cs := by rw [nameAt, if_pos hc, h.takeWhile]
  rw [ident, hname, ← List.cons_append, List.drop_left]
  rfl

theorem isWordChar_of_start (h : isNameStart c = true) : isWordChar c = true :=
  isWordChar_of_name (by rw [isNameChar, h, Bool.true_or])

theorem identPattern_longest (hc : isNameStart c = true) (h : Longest isNameChar cs u) :
    identPattern.length (c :: (cs ++ u)) = if endsWord u then cs.length + 1 else 0 := by
  have hword := isWordChar_of_start hc
  obtain ⟨d, hd, hruns⟩ := runs_flatMap (p := isNameChar) (fun _ => isWordChar_of_name)
    (boundary_inside fun _ => isWordChar_of_name) hword (cs ++ u)
  rw [h.dropWhile, ways_boundary hd] at hruns
  have hleaves : (Pattern.seq (.one isNameStart) (.seq (.many isNameChar) .boundary)).leaves
      ⟨none, c :: (cs ++ u)⟩ = if endsWord u then some u else none := by
    rw [Pattern.leaves, ways_seq, ways_one_cons, if_pos hc, List.flatMap_singleton, ways_seq,
      Pattern.ways, hruns]
    split <;> rfl
  rw [identPattern, length_boundary, if_pos hword]
  cases hends : endsWord u with
  | false => exact length_none (by rw [hleaves, hends]; rfl)
  | true => exact length_append (w := c :: cs) (by rw [List.cons_append, hleaves, hends]; rfl)

/-- A name is what its pattern takes. -/
theorem ident_pattern (cs : List Char) : ident cs = identPattern.length cs := by
  cases cs with
  | nil => exact (length_nil _).symm
  | cons c cs =>
    cases hc : isNameStart c with
    | false =>
      rw [ident_cons hc, identPattern, length_boundary]
      have hnone : (Pattern.seq (.one isNameStart)
          (.seq (.many isNameChar) .boundary)).leaves ⟨none, c :: cs⟩ = none := by
        simp [Pattern.leaves, Pattern.ways, hc]
      rw [length_none hnone, ite_self]
    | true =>
      obtain ⟨w, u, rfl, h⟩ := exists_longest isNameChar cs
      rw [ident_longest hc h, identPattern_longest hc h]

/-! Reserved words -/

theorem spelt_here (w u : List Char) (before : Option Char) :
    (Pattern.spelt w).ways ⟨before, w ++ u⟩ = [⟨w.getLast?.or before, u⟩] := by
  induction w generalizing before with
  | nil => rfl
  | cons c w ih =>
    rw [Pattern.spelt, Pattern.ways, List.cons_append, ways_one_cons, if_pos (beq_self_eq_true c),
      List.flatMap_singleton, ih, List.getLast?_cons]
    cases w.getLast? <;> rfl

theorem spelt_elsewhere (h : ¬ w <+: cs) (before : Option Char) :
    (Pattern.spelt w).ways ⟨before, cs⟩ = [] := by
  induction w generalizing cs before with
  | nil => exact absurd List.nil_prefix h
  | cons c w ih =>
    cases cs with
    | nil => rfl
    | cons d cs =>
      rw [Pattern.spelt, Pattern.ways, ways_one_cons]
      split
      · next hd =>
        obtain rfl : d = c := by simpa using hd
        rw [List.flatMap_singleton]
        exact ih (fun hw => h (List.cons_prefix_cons.mpr ⟨rfl, hw⟩)) _
      · rfl

/-- Words that are read as names. -/
def AreNames (words : List String) : Prop :=
  ∀ w ∈ words, w.toList ≠ [] ∧ nameAt w.toList = w.toList

instance (words : List String) : Decidable (AreNames words) :=
  inferInstanceAs (Decidable (∀ w ∈ words, w.toList ≠ [] ∧ nameAt w.toList = w.toList))

theorem nameAt_inside (h : nameAt w = w) : ∀ e ∈ w, isNameChar e = true := by
  cases w with
  | nil => simp
  | cons c cs =>
    cases hc : isNameStart c with
    | false => simp [nameAt, hc] at h
    | true =>
      simp only [nameAt, hc, if_true, List.cons.injEq, true_and] at h
      rintro e (_ | ⟨_, he⟩)
      · rw [isNameChar, hc, Bool.true_or]
      · exact of_mem_takeWhile (by rwa [h])

/-- A name is there as a whole, or it is not there. -/
theorem nameAt_append (hne : w ≠ []) (h : nameAt w = w) (hu : endsWord u = true) :
    nameAt (w ++ u) = w := by
  obtain ⟨c, cs, rfl⟩ := List.exists_cons_of_ne_nil hne
  cases hc : isNameStart c with
  | false => simp [nameAt, hc] at h
  | true => exact nameAt_word hc (fun e he => nameAt_inside h e (List.mem_cons_of_mem c he)) hu

theorem spelt_leaves (hne : w ≠ []) (h : nameAt w = w) (cs : List Char) :
    (Pattern.seq (.spelt w) .boundary).leaves ⟨none, cs⟩ =
      if nameAt cs = w ∧ endsWord (cs.drop w.length) then some (cs.drop w.length) else none := by
  by_cases hw : w <+: cs
  · obtain ⟨u, rfl⟩ := hw
    obtain ⟨d, hd⟩ : ∃ d, w.getLast? = some d := Option.isSome_iff_exists.mp (by simpa using hne)
    have hword : isWordChar d = true :=
      isWordChar_of_name (nameAt_inside h d (List.mem_of_getLast? hd))
    rw [List.drop_left, Pattern.leaves, ways_seq, spelt_here, hd, Option.some_or,
      List.flatMap_singleton, ways_boundary hword]
    cases hu : endsWord u with
    | false => simp
    | true => simp [nameAt_append hne h hu]
  · have hname : nameAt cs ≠ w := by
      rintro rfl
      exact hw (nameAt_starts cs)
    rw [Pattern.leaves, ways_seq, spelt_elsewhere hw, if_neg fun h => hname h.1]
    rfl

theorem among_leaves (h : AreNames words) (cs : List Char) :
    (Pattern.seq (.among words) .boundary).leaves ⟨none, cs⟩ =
      if String.ofList (nameAt cs) ∈ words ∧ endsWord (cs.drop (nameAt cs).length) then
        some (cs.drop (nameAt cs).length)
      else none := by
  induction words with
  | nil => cases cs <;> simp [Pattern.among, Pattern.leaves, Pattern.ways]
  | cons w words ih =>
    obtain ⟨⟨hne, hw⟩, hwords⟩ := List.forall_mem_cons.mp h
    rw [Pattern.among, leaves_alt_seq, spelt_leaves hne hw, ih hwords]
    by_cases heq : nameAt cs = w.toList
    · by_cases hends : endsWord (cs.drop w.toList.length) = true <;> simp [heq, hends]
    · have hof : String.ofList (nameAt cs) ≠ w := by
        rintro rfl
        exact heq String.toList_ofList.symm
      simp [heq, hof]

/-- Reserved words are what their pattern takes. -/
theorem reserved_pattern (h : AreNames words) (cs : List Char) :
    reserved words cs = (reservedPattern words).length cs := by
  cases cs with
  | nil => simp [reserved, ident, nameAt, length_nil]
  | cons c cs =>
    rw [reservedPattern, length_boundary]
    cases hc : isWordChar c with
    | false =>
      have hstart : isNameStart c = false :=
        Bool.eq_false_iff.mpr fun hs => by simp [isWordChar_of_start hs] at hc
      simp [reserved, ident_cons hstart]
    | true =>
      have hle : (nameAt (c :: cs)).length ≤ (c :: cs).length := (nameAt_starts _).length_le
      rw [if_pos rfl, Pattern.length, among_leaves h, reserved, ident]
      by_cases hin : String.ofList (nameAt (c :: cs)) ∈ words
      · cases hends : endsWord ((c :: cs).drop (nameAt (c :: cs)).length)
        · simp [hin]
        · simp only [hin, true_and, if_true, Option.map_some, Option.getD_some, List.length_drop]
          omega
      · simp [hin]

/-! Numbers -/

theorem leaves_boundary (hd : isWordChar d = true) (u : List Char) :
    Pattern.boundary.leaves ⟨some d, u⟩ = if endsWord u then some u else none := by
  rw [Pattern.leaves, ways_boundary hd]
  split <;> rfl

/-- Digits and a pattern that cannot go on from among them. -/
theorem several_leaves {k : Pattern}
    (hk : ∀ d e u, isWordChar d = true → isAsciiDigit e = true → k.ways ⟨some d, e :: u⟩ = [])
    (hc : isAsciiDigit c = true) (h : Longest isAsciiDigit cs u) (before : Option Char) :
    ∃ d, isWordChar d = true ∧
      (Pattern.seq (.several isAsciiDigit) k).leaves ⟨before, c :: (cs ++ u)⟩ =
        k.leaves ⟨some d, u⟩ := by
  obtain ⟨d, hd, hruns⟩ := runs_flatMap (p := isAsciiDigit) (fun _ => isWordChar_of_digit) hk
    (isWordChar_of_digit hc) (cs ++ u)
  rw [h.dropWhile] at hruns
  refine ⟨d, hd, ?_⟩
  rw [Pattern.leaves, ways_seq, Pattern.several, ways_seq, ways_one_cons, if_pos hc,
    List.flatMap_singleton, Pattern.ways, hruns, Pattern.leaves]

theorem several_leaves_nil (k : Pattern) (before : Option Char)
    (hu : ∀ e ∈ u.head?, isAsciiDigit e = false) :
    (Pattern.seq (.several isAsciiDigit) k).leaves ⟨before, u⟩ = none := by
  cases u with
  | nil => rfl
  | cons e u => simp [Pattern.leaves, Pattern.several, ways_seq, ways_one_cons, hu e rfl]

theorem fractionAt_longest (h : Longest isAsciiDigit w v) : fractionAt ('.' :: (w ++ v)) = w :=
  h.takeWhile

theorem hasFraction_longest (hne : w ≠ []) (h : Longest isAsciiDigit w v) :
    hasFraction ('.' :: (w ++ v)) = endsWord v := by
  have hempty : w.isEmpty = false := List.isEmpty_eq_false_iff.mpr hne
  rw [hasFraction, fractionAt_longest h, hempty, Nat.add_comm, List.drop_succ_cons, List.drop_left]
  rfl

theorem hasFraction_none (h : fractionAt u = []) : hasFraction u = false := by
  rw [hasFraction, h]
  rfl

theorem fractionAt_le (h : hasFraction u = true) : 1 + (fractionAt u).length ≤ u.length := by
  fun_cases fractionAt u with
  | case1 cs =>
    have hle := (List.takeWhile_prefix (l := cs) isAsciiDigit).length_le
    rw [List.length_cons]
    omega
  | case2 x hn =>
    rw [hasFraction_none (fractionAt.eq_2 u hn)] at h
    cases h

theorem digits_boundary : ∀ d e u, isWordChar d = true → isAsciiDigit e = true →
    Pattern.boundary.ways ⟨some d, e :: u⟩ = [] :=
  boundary_inside fun _ => isWordChar_of_digit

theorem fractionPattern_leaves (before : Option Char) (u : List Char) :
    (Pattern.seq fractionPattern .boundary).leaves ⟨before, u⟩ =
      if hasFraction u then some (u.drop (1 + (fractionAt u).length)) else none := by
  fun_cases fractionAt u with
  | case1 cs =>
    have hpoint : (Pattern.seq fractionPattern .boundary).leaves ⟨before, '.' :: cs⟩ =
        (Pattern.seq (.several isAsciiDigit) .boundary).leaves ⟨some '.', cs⟩ := by
      simp [Pattern.leaves, fractionPattern, ways_seq, ways_one_cons]
    obtain ⟨w, v, rfl, h⟩ := exists_longest isAsciiDigit cs
    rw [hpoint, h.takeWhile]
    cases w with
    | nil =>
      have hfraction := hasFraction_none (fractionAt_longest h)
      rw [List.nil_append] at hfraction ⊢
      rw [several_leaves_nil _ _ h.stops, hfraction]
      rfl
    | cons e w =>
      obtain ⟨d, hd, hleaves⟩ := several_leaves digits_boundary (h.inside e List.mem_cons_self)
        ⟨fun a ha => h.inside a (List.mem_cons_of_mem e ha), h.stops⟩ (some '.')
      rw [List.cons_append, hleaves, leaves_boundary hd, ← List.cons_append,
        hasFraction_longest (List.cons_ne_nil e w) h, Nat.add_comm, List.drop_succ_cons,
        List.drop_left]
  | case2 x hn =>
    rw [hasFraction_none (fractionAt.eq_2 u hn)]
    cases u with
    | nil => rfl
    | cons e u =>
      have hpoint : (e == '.') = false := beq_eq_false_iff_ne.mpr fun he => hn u (he ▸ rfl)
      simp [Pattern.leaves, fractionPattern, ways_seq, ways_one_cons, hpoint]

/-- Digits with a fraction are tried first. -/
theorem numberPattern_longest (hc : isAsciiDigit c = true) (h : Longest isAsciiDigit cs u) :
    numberPattern.length (c :: (cs ++ u)) =
      if hasFraction u then cs.length + 2 + (fractionAt u).length
      else if endsWord u then cs.length + 1 else 0 := by
  have hgo : ∀ d e u, isWordChar d = true → isAsciiDigit e = true →
      (Pattern.seq (.alt fractionPattern .empty) .boundary).ways ⟨some d, e :: u⟩ = [] := by
    intro d e u hd he
    have hpoint : (e == '.') = false := by
      rw [beq_eq_false_iff_ne]
      rintro rfl
      cases he
    simp [ways_seq, ways_alt, fractionPattern, ways_one_cons, hpoint, Pattern.ways.eq_1,
      digits_boundary d e u hd he]
  obtain ⟨d, hd, hleaves⟩ := several_leaves hgo hc h none
  have hempty : (Pattern.seq .empty .boundary).leaves ⟨some d, u⟩ =
      Pattern.boundary.leaves ⟨some d, u⟩ := by
    simp [Pattern.leaves, Pattern.ways]
  rw [leaves_alt_seq, fractionPattern_leaves, hempty, leaves_boundary hd] at hleaves
  rw [numberPattern, length_boundary, if_pos (isWordChar_of_digit hc), Pattern.length, hleaves]
  cases hf : hasFraction u with
  | true =>
    have hle := fractionAt_le hf
    simp only [if_true, Option.some_or, Option.map_some, Option.getD_some, List.length_cons,
      List.length_append, List.length_drop]
    omega
  | false =>
    cases hends : endsWord u with
    | true =>
      simp only [Bool.false_eq_true, if_false, if_true, Option.none_or, Option.map_some,
        Option.getD_some, List.length_cons, List.length_append]
      omega
    | false => rfl

theorem number_longest (hc : isAsciiDigit c = true) (h : Longest isAsciiDigit cs u) :
    number (c :: (cs ++ u)) =
      if hasFraction u then cs.length + 2 + (fractionAt u).length
      else if endsWord u then cs.length + 1 else 0 := by
  have hdigits : Longest isAsciiDigit (c :: cs) u :=
    ⟨List.forall_mem_cons.mpr ⟨hc, h.inside⟩, h.stops⟩
  rw [← List.cons_append, number_digits hdigits.takeWhile (List.cons_ne_nil c cs),
    List.length_cons]

theorem number_pattern (cs : List Char) : number cs = numberPattern.length cs := by
  cases cs with
  | nil => exact (length_nil _).symm
  | cons c cs =>
    cases hc : isAsciiDigit c with
    | false =>
      have hnone := several_leaves_nil (u := c :: cs)
        (.seq (.alt fractionPattern .empty) .boundary) none (by simp [hc])
      rw [numberPattern, length_boundary, length_none hnone, ite_self]
      simp [number, hc]
    | true =>
      obtain ⟨w, u, rfl, h⟩ := exists_longest isAsciiDigit cs
      rw [number_longest hc h, numberPattern_longest hc h]

/-! The token that is read -/

/-- What a word is, told by the lists of reserved words. -/
def wordKind (word : String) : TokenKind :=
  if word ∈ modifierWords then .modifier
  else if word ∈ keywordWords then .keyword
  else .ident

theorem kindOf_word (hc : isNameStart c = true) (cs : List Char) :
    kindOf (String.ofList (c :: cs)) = wordKind (String.ofList (c :: cs)) := by
  simp [kindOf, wordKind, hc]

theorem classify_digit (hc : isAsciiDigit c = true) (cs : List Char) :
    classify (c :: cs) = matched .number (number (c :: cs)) := by
  rw [classify_of_kindAt (kindAt_digit hc)]
  simp [rules, kindGroup, findSome?_cons_or]

theorem unmatched_name (hc : isWordChar c = true) :
    unmatched c = .unrecognisedToken c.toString := by
  have hquote : ¬ (c = '"' ∨ c = '\x27') := by
    rintro (rfl | rfl) <;> revert hc <;> decide
  rw [unmatched, if_neg hquote]

/-- A name that runs into a word character is no token. -/
theorem classify_cut_word (hc : isNameStart c = true) (h : Longest isNameChar cs u)
    (hu : endsWord u = false) : classify (c :: (cs ++ u)) = none := by
  have hident : ident (c :: (cs ++ u)) = 0 := by
    rw [ident_longest hc h, hu]
    rfl
  simp [classify_name (kindAt_name hc), reserved, hident, matched]

end Lexical

namespace Reader

open Lexical Text

variable {r : Reader} {c : Char} {cs u f v rest : List Char}

theorem next_unrecognised (hr : r.rest = c :: rest) (hc : isWordChar c = true)
    (h : classify (c :: rest) = none) :
    r.next = .error ⟨.unrecognisedToken c.toString, r.position⟩ := by
  simp only [next, hr, h, unmatched_name hc]

theorem next_plain {kind : TokenKind} {text : List Char} (hr : r.rest = text ++ u)
    (hk : kind ≠ .string) (h : Recognised kind text u) :
    r.next = .ok (r.emit ⟨kind, .ofList text⟩ text.length) := by
  rw [next_of_recognised hr h, valueOf, if_neg hk]

/-- A name is read as one token where a word may end behind it, and not at all elsewhere. -/
theorem next_word (hr : r.rest = c :: (cs ++ u)) (hc : isNameStart c = true)
    (h : Longest isNameChar cs u) :
    (endsWord u = false → r.next = .error ⟨.unrecognisedToken c.toString, r.position⟩) ∧
    (endsWord u = true → r.next = .ok (r.emit
      ⟨wordKind (.ofList (c :: cs)), .ofList (c :: cs)⟩ (cs.length + 1))) := by
  constructor
  · intro hu
    exact next_unrecognised hr (isWordChar_of_start hc) (classify_cut_word hc h hu)
  · intro hu
    have hrec : Recognised (wordKind (.ofList (c :: cs))) (c :: cs) u :=
      .word hc h.inside hu (kindOf_word hc cs)
    refine next_plain hr ?_ hrec
    unfold wordKind
    repeat' split
    all_goals exact TokenKind.noConfusion

/-- Digits are read with a fraction if a word may end behind that, and else without one if a word
may end behind the digits. -/
theorem next_number (hr : r.rest = c :: (cs ++ u)) (hc : isAsciiDigit c = true)
    (h : Longest isAsciiDigit cs u) :
    (∀ f v, u = '.' :: (f ++ v) → f ≠ [] → Longest isAsciiDigit f v → endsWord v = true →
      r.next = .ok (r.emit ⟨.number, .ofList (c :: (cs ++ '.' :: f))⟩
        (cs.length + 2 + f.length))) ∧
    ((∀ f v, u = '.' :: (f ++ v) → f ≠ [] → Longest isAsciiDigit f v → endsWord v = false) →
      (endsWord u = true →
        r.next = .ok (r.emit ⟨.number, .ofList (c :: cs)⟩ (cs.length + 1))) ∧
      (endsWord u = false → r.next = .error ⟨.unrecognisedToken c.toString, r.position⟩)) := by
  have hdigits : ∀ d ∈ c :: cs, isAsciiDigit d = true := List.forall_mem_cons.mpr ⟨hc, h.inside⟩
  refine ⟨fun f v hu hne hf hv => ?_, fun hnone => ?_⟩
  · subst hu
    have hnext := next_plain (r := r) (u := v) (by rw [hr]; simp) TokenKind.noConfusion
      (.fraction hdigits hne hf.inside hv)
    rw [hnext]
    congr 2
    simp only [List.length_cons, List.length_append]
    omega
  · have hfraction : hasFraction u = false := by
      cases hlonger : hasFraction u with
      | false => rfl
      | true =>
        obtain ⟨f, v, rfl, hne, hf, hv⟩ := hasFraction_split hlonger
        rw [hnone f v rfl hne (longest_of_ends (fun _ => isWordChar_of_digit) hf hv)] at hv
        cases hv
    constructor
    · intro hu
      exact next_plain hr TokenKind.noConfusion (.whole hdigits hu hfraction)
    · intro hu
      refine next_unrecognised hr (isWordChar_of_digit hc) ?_
      rw [classify_digit hc, number_longest hc h, hfraction, hu]
      rfl

/-- What is read of a word or a number, wherever reading has come to it, and the patterns that the
rules stand for. -/
theorem words_munched (r : Reader) (c : Char) (cs u : List Char) :
    r.finish = r.next.bind finish ∧
    (∀ text, ident text = identPattern.length text ∧ number text = numberPattern.length text ∧
      reserved modifierWords text = (reservedPattern ["pub", "override", "static"]).length text ∧
      reserved keywordWords text = (reservedPattern
        ["in", "switch", "case", "default", "if", "enum", "alias", "let", "fn", "break",
          "continue", "for", "throws", "import", "new"]).length text) ∧
    (r.rest = c :: (cs ++ u) → isNameStart c = true → Longest isNameChar cs u →
      (endsWord u = false → r.next = .error ⟨.unrecognisedToken c.toString, r.position⟩) ∧
      (endsWord u = true → r.next = .ok (r.emit
        ⟨wordKind (.ofList (c :: cs)), .ofList (c :: cs)⟩ (cs.length + 1)))) ∧
    (r.rest = c :: (cs ++ u) → isAsciiDigit c = true → Longest isAsciiDigit cs u →
      (∀ f v, u = '.' :: (f ++ v) → f ≠ [] → Longest isAsciiDigit f v → endsWord v = true →
        r.next = .ok (r.emit ⟨.number, .ofList (c :: (cs ++ '.' :: f))⟩
          (cs.length + 2 + f.length))) ∧
      ((∀ f v, u = '.' :: (f ++ v) → f ≠ [] → Longest isAsciiDigit f v → endsWord v = false) →
        (endsWord u = true →
          r.next = .ok (r.emit ⟨.number, .ofList (c :: cs)⟩ (cs.length + 1))) ∧
        (endsWord u = false →
          r.next = .error ⟨.unrecognisedToken c.toString, r.position⟩))) := by
  refine ⟨finish_next r, fun text => ⟨ident_pattern text, number_pattern text, ?_, ?_⟩,
    next_word, next_number⟩
  · exact reserved_pattern (by decide +kernel) text
  · exact reserved_pattern (by decide +kernel) text

/-- A word character behind a name spoils it, and one behind a fraction leaves the digits. -/
theorem words_munched_cut :
    (⟨"f", ⟨4, 1, 5⟩, ['p', 'u', 'b', 'é'], []⟩ : Reader).next =
      .error ⟨.unrecognisedToken "p", ⟨"f", 4, 1, 5⟩⟩ ∧
    (⟨"f", ⟨4, 1, 5⟩, ['p', 'u', 'b', ' '], []⟩ : Reader).next =
      .ok ⟨"f", ⟨7, 1, 8⟩, [' '], [⟨⟨.modifier, "pub"⟩, ⟨⟨"f", 4, 1, 5⟩, ⟨"f", 7, 1, 8⟩⟩⟩]⟩ ∧
    (⟨"f", ⟨4, 1, 5⟩, ['1', '.', '5', ';'], []⟩ : Reader).next =
      .ok ⟨"f", ⟨7, 1, 8⟩, [';'], [⟨⟨.number, "1.5"⟩, ⟨⟨"f", 4, 1, 5⟩, ⟨"f", 7, 1, 8⟩⟩⟩]⟩ ∧
    (⟨"f", ⟨4, 1, 5⟩, ['1', '.', '5', 'x'], []⟩ : Reader).next =
      .ok ⟨"f", ⟨5, 1, 6⟩, ['.', '5', 'x'],
        [⟨⟨.number, "1"⟩, ⟨⟨"f", 4, 1, 5⟩, ⟨"f", 5, 1, 6⟩⟩⟩]⟩ := by
  refine ⟨?_, ?_, ?_, ?_⟩
  · exact ((words_munched ⟨"f", ⟨4, 1, 5⟩, ['p', 'u', 'b', 'é'], []⟩ 'p' ['u', 'b'] ['é']).2.2.1
      rfl (by decide) (.of_cons (by decide) (by decide) [])).1 (by decide +kernel)
  · exact ((words_munched ⟨"f", ⟨4, 1, 5⟩, ['p', 'u', 'b', ' '], []⟩ 'p' ['u', 'b'] [' ']).2.2.1
      rfl (by decide) (.of_cons (by decide) (by decide) [])).2 (by decide)
  · exact ((words_munched ⟨"f", ⟨4, 1, 5⟩, ['1', '.', '5', ';'], []⟩ '1' [] ['.', '5', ';']).2.2.2
      rfl (by decide) (.of_cons (by decide) (by decide) _)).1 ['5'] [';'] rfl (by decide)
      (.of_cons (by decide) (by decide) []) (by decide)
  · have hread := ((words_munched ⟨"f", ⟨4, 1, 5⟩, ['1', '.', '5', 'x'], []⟩ '1' []
      ['.', '5', 'x']).2.2.2 rfl (by decide) (.of_cons (by decide) (by decide) _)).2
    refine (hread fun f v hsplit _ hf => ?_).1 (by decide)
    have hv := hf.dropWhile
    rw [← (List.cons.inj hsplit).2] at hv
    rw [← hv]
    decide

end Reader

end Syntree
