import Syntree.Proofs.Closing

/-!
What a token is by its own text, and what may follow it for it to be read as it is. The rules are
tried in order, but the first character of a token leaves few of them.
-/

namespace Syntree

namespace Lexical

open Text

variable {c : Char} {cs rest text u : List Char} {kind : TokenKind} {extra : Nat}

/-! Characters -/

theorem toNat_lt_of_name (h : isNameChar c = true) : c.toNat < 128 := by
  simp only [isNameChar, isNameStart, isAsciiLetter, isAsciiDigit, Bool.or_eq_true,
    Bool.and_eq_true, decide_eq_true_eq, beq_iff_eq, Char.le_def, UInt32.le_iff_toNat_le] at h
  rcases h with ((⟨-, h⟩ | ⟨-, h⟩) | rfl) | ⟨-, h⟩
  · exact Nat.lt_of_le_of_lt h (by decide)
  · exact Nat.lt_of_le_of_lt h (by decide)
  · decide
  · exact Nat.lt_of_le_of_lt h (by decide)

theorem isWordChar_of_name (h : isNameChar c = true) : isWordChar c = true := by
  rw [isWordChar, if_pos (toNat_lt_of_name h), h]

theorem isWordChar_of_digit (h : isAsciiDigit c = true) : isWordChar c = true :=
  isWordChar_of_name (by rw [isNameChar, h, Bool.or_true])

theorem takeWhile_stops {p : Char → Bool} (hall : ∀ c ∈ cs, p c = true)
    (hu : ∀ d ∈ u.head?, p d = false) : (cs ++ u).takeWhile p = cs := by
  rw [List.takeWhile_append_of_pos hall]
  cases u with
  | nil => simp
  | cons d u => simp [hu d rfl]

/-- Characters up to a place where a word may end. -/
theorem takeWhile_ends {p : Char → Bool} (hp : ∀ c, p c = true → isWordChar c = true)
    (hall : ∀ c ∈ cs, p c = true) (hu : endsWord u = true) : (cs ++ u).takeWhile p = cs := by
  apply takeWhile_stops hall
  intro d hd
  obtain ⟨u, rfl⟩ := List.head?_eq_some_iff.mp hd
  cases hpd : p d with
  | false => rfl
  | true => simp [endsWord, hp d hpd] at hu

/-- The kind of a token that starts with `c`, where reserved words count as names and comments as
operators. -/
def kindAt (c : Char) : Option TokenKind :=
  if isNameStart c then some .ident
  else if isAsciiDigit c then some .number
  else if isWhitespace c then some .whitespace
  else if c = '"' ∨ c = '\x27' then some .string
  else if c = '\\' then some .backslash
  else if c = '\n' then some .newline
  else if c ∈ operatorStarts then some .operator
  else if isPunct c then some .punct
  else none

def kindGroup : TokenKind → TokenKind
  | .comment => .operator
  | .modifier | .keyword => .ident
  | kind => kind

theorem kindAt_operator (h : c ∈ operatorStarts) : kindAt c = some .operator := by
  have hall : operatorStarts.all (fun c => kindAt c = some .operator) = true := by decide +kernel
  simpa using List.all_eq_true.mp hall c h

theorem kindAt_punct (h : isPunct c = true) : kindAt c = some .punct := by
  have hall : "[]`~()@#$\x7b\x7d:;?.,".toList.all (fun c => kindAt c = some .punct) = true := by
    decide +kernel
  simpa using List.all_eq_true.mp hall c (List.contains_iff_mem.mp h)

theorem kindAt_whitespace (h : isWhitespace c = true) : kindAt c = some .whitespace := by
  simp only [isWhitespace, Bool.or_eq_true, beq_iff_eq] at h
  rcases h with (rfl | rfl) | rfl <;> decide

theorem kindAt_name (h : isNameStart c = true) : kindAt c = some .ident := if_pos h

theorem kindAt_digit (h : isAsciiDigit c = true) : kindAt c = some .number := by
  rw [kindAt, not_isNameStart_of_digit h, if_neg Bool.false_ne_true, if_pos h]

theorem backslash_cons (c : Char) (cs : List Char) :
    backslash (c :: cs) = if c = '\\' then 1 else 0 := by
  unfold backslash
  split <;> simp_all

theorem newline_cons (c : Char) (cs : List Char) :
    newline (c :: cs) = if c = '\n' then 1 else 0 := by
  unfold newline
  split <;> simp_all

theorem ident_cons (hc : isNameStart c = false) : ident (c :: rest) = 0 := by
  simp [ident, nameAt, hc]

theorem operator_cons (hc : c ∉ operatorStarts) : operator (c :: rest) = 0 := by
  have hchar : isOperatorChar c = false := Bool.eq_false_iff.mpr (mt mem_operatorStarts hc)
  cases rest with
  | nil => simp [operator, hchar]
  | cons d rest => simp [operator, hchar, mt mem_operatorStarts_of_pair hc]

/-- A rule matches only where a token of its kind can start. -/
theorem kindAt_of_rule : ∀ q ∈ rules, ∀ c cs, q.2 (c :: cs) ≠ 0 →
    kindAt c = some (kindGroup q.1) := by
  have hcomment (c : Char) (cs : List Char) (h : comment (c :: cs) ≠ 0) :
      kindAt c = some .operator := by
    unfold comment at h
    split at h
    · next hc => rw [(List.cons.inj hc).1]; decide
    · next hc => rw [(List.cons.inj hc).1]; decide
    · exact absurd rfl h
  have hbackslash (c : Char) (cs : List Char) (h : backslash (c :: cs) ≠ 0) :
      kindAt c = some .backslash := by
    rw [backslash_cons] at h
    split at h
    · next hc => rw [hc]; decide
    · exact absurd rfl h
  have hwhitespace (c : Char) (cs : List Char) (h : whitespace (c :: cs) ≠ 0) :
      kindAt c = some .whitespace := by
    cases hc : isWhitespace c with
    | false => exact absurd (by simp [whitespace, hc]) h
    | true => exact kindAt_whitespace hc
  have hident (c : Char) (cs : List Char) (h : ident (c :: cs) ≠ 0) : kindAt c = some .ident := by
    cases hc : isNameStart c with
    | false => exact absurd (ident_cons hc) h
    | true => exact kindAt_name hc
  have hreserved (words : List String) (c : Char) (cs : List Char)
      (h : reserved words (c :: cs) ≠ 0) : kindAt c = some .ident := by
    apply hident c cs
    intro hc
    exact h (by simp [reserved, hc])
  have hnumber (c : Char) (cs : List Char) (h : number (c :: cs) ≠ 0) :
      kindAt c = some .number := by
    cases hc : isAsciiDigit c with
    | false => exact absurd (by simp [number, hc]) h
    | true => exact kindAt_digit hc
  have hstring (c : Char) (cs : List Char) (h : string (c :: cs) ≠ 0) :
      kindAt c = some .string := by
    unfold string at h
    split at h
    · next hc => rw [(List.cons.inj hc).1]; decide
    · next hc => rw [(List.cons.inj hc).1]; decide
    · exact absurd rfl h
  have hnewline (c : Char) (cs : List Char) (h : newline (c :: cs) ≠ 0) :
      kindAt c = some .newline := by
    rw [newline_cons] at h
    split at h
    · next hc => rw [hc]; decide
    · exact absurd rfl h
  have hoperator (c : Char) (cs : List Char) (h : operator (c :: cs) ≠ 0) :
      kindAt c = some .operator := by
    by_cases hc : c ∈ operatorStarts
    · exact kindAt_operator hc
    · exact absurd (operator_cons hc) h
  have hpunct (c : Char) (cs : List Char) (h : punct (c :: cs) ≠ 0) :
      kindAt c = some .punct := by
    cases hc : isPunct c with
    | false => exact absurd (by simp [punct, hc]) h
    | true => exact kindAt_punct hc
  simp only [rules, List.forall_mem_cons]
  exact ⟨hcomment, hbackslash, hwhitespace, hreserved _, hreserved _, hident, hnumber, hstring,
    hnewline, hoperator, hpunct, by simp⟩

theorem kindAt_of_classify (h : classify (c :: rest) = some (kind, extra)) :
    kindAt c = some (kindGroup kind) := by
  obtain ⟨rule, hm, hr⟩ := classify_rule h
  exact kindAt_of_rule _ hm c rest (by simp [hr])

theorem findSome?_filter {α β : Type} {p : α → Bool} {f : α → Option β} {xs : List α}
    (h : ∀ x ∈ xs, p x = false → f x = none) : (xs.filter p).findSome? f = xs.findSome? f := by
  induction xs with
  | nil => rfl
  | cons x xs ih =>
    obtain ⟨hx, hxs⟩ := List.forall_mem_cons.mp h
    cases hp : p x with
    | false => rw [List.filter_cons_of_neg (by simp [hp]), ih hxs, List.findSome?_cons, hx hp]
    | true => rw [List.filter_cons_of_pos hp, List.findSome?_cons, List.findSome?_cons, ih hxs]

/-- What a match of the given length makes of the token at the start of a text. -/
def matched (kind : TokenKind) : Nat → Option (TokenKind × Nat)
  | 0 => none
  | extra + 1 => some (kind, extra)

/-- Only the rules for what can start here need to be tried. -/
theorem classify_of_kindAt (h : kindAt c = some kind) (cs : List Char) :
    classify (c :: cs) = (rules.filter fun q => decide (kindGroup q.1 = kind)).findSome? fun q =>
      matched q.1 (q.2 (c :: cs)) := by
  symm
  apply findSome?_filter
  intro q hq hne
  cases hr : q.2 (c :: cs) with
  | zero => rfl
  | succ n =>
    have hk := kindAt_of_rule q hq c cs (by rw [hr]; exact Nat.succ_ne_zero n)
    rw [h, Option.some.injEq] at hk
    simp [hk] at hne

theorem findSome?_cons_or {α β : Type} (f : α → Option β) (x : α) (xs : List α) :
    (x :: xs).findSome? f = (f x).or (xs.findSome? f) := by
  rw [List.findSome?_cons]
  cases f x <;> rfl

theorem classify_name (h : kindAt c = some .ident) (cs : List Char) :
    classify (c :: cs) = (matched .modifier (reserved modifierWords (c :: cs))).or
      ((matched .keyword (reserved keywordWords (c :: cs))).or
        (matched .ident (ident (c :: cs)))) := by
  rw [classify_of_kindAt h]
  simp [rules, kindGroup, findSome?_cons_or]

theorem classify_sign (h : kindAt c = some .operator) (cs : List Char) :
    classify (c :: cs) = (matched .comment (comment (c :: cs))).or
      (matched .operator (operator (c :: cs))) := by
  rw [classify_of_kindAt h]
  simp [rules, kindGroup, findSome?_cons_or]

/-- The kinds whose rule is the only one that can match where it does. -/
def soleKinds : List TokenKind := [.backslash, .whitespace, .number, .string, .newline, .punct]

theorem classify_sole {rule : List Char → Nat} (hs : kind ∈ soleKinds) (hm : (kind, rule) ∈ rules)
    (h : rule (c :: cs) = extra + 1) : classify (c :: cs) = some (kind, extra) := by
  have hne : rule (c :: cs) ≠ 0 := by omega
  have hk : kindAt c = some (kindGroup kind) := kindAt_of_rule _ hm c cs hne
  simp only [soleKinds, List.mem_cons, List.not_mem_nil, or_false] at hs
  rcases hs with rfl | rfl | rfl | rfl | rfl | rfl
  all_goals
    rw [classify_of_kindAt hk]
    simp [rules] at hm
    simp [rules, kindGroup, ← hm, h, matched]

/-! Single rules -/

/-- Whether a number takes along what follows its digits: a point and digits behind which a word may
end. -/
def hasFraction (u : List Char) : Bool :=
  !(fractionAt u).isEmpty && endsWord (u.drop (1 + (fractionAt u).length))

/-- `Recognised kind text u`: at the start of `text ++ u`, the first token is `text`. -/
inductive Recognised : TokenKind → List Char → List Char → Prop
  | line {body u : List Char} (inside : '\n' ∉ body) (stops : ∀ d ∈ u.head?, d = '\n') :
      Recognised .comment ('/' :: '/' :: body) u
  | block {body u : List Char} (closes : closeComment body = some body.length) :
      Recognised .comment ('/' :: '*' :: body) u
  | backslash {u : List Char} : Recognised .backslash ['\\'] u
  | blanks {c : Char} {cs u : List Char} (inside : ∀ d ∈ c :: cs, isWhitespace d = true)
      (stops : ∀ d ∈ u.head?, isWhitespace d = false) : Recognised .whitespace (c :: cs) u
  | word {kind : TokenKind} {c : Char} {cs u : List Char} (starts : isNameStart c = true)
      (inside : ∀ d ∈ cs, isNameChar d = true) (ends : endsWord u = true)
      (known : kindOf (String.ofList (c :: cs)) = kind) : Recognised kind (c :: cs) u
  | whole {c : Char} {cs u : List Char} (inside : ∀ d ∈ c :: cs, isAsciiDigit d = true)
      (ends : endsWord u = true) (alone : hasFraction u = false) : Recognised .number (c :: cs) u
  | fraction {c : Char} {cs ds u : List Char} (inside : ∀ d ∈ c :: cs, isAsciiDigit d = true)
      (behind : ds ≠ []) (digits : ∀ d ∈ ds, isAsciiDigit d = true) (ends : endsWord u = true) :
      Recognised .number (c :: (cs ++ '.' :: ds)) u
  | double {content u : List Char}
      (closes : closingQuote (content ++ ['"']) = some content.length) :
      Recognised .string ('"' :: (content ++ ['"'])) u
  | single {content u : List Char} (inside : '\x27' ∉ content) :
      Recognised .string ('\x27' :: (content ++ ['\x27'])) u
  | newline {u : List Char} : Recognised .newline ['\n'] u
  | pair {c d : Char} {u : List Char} (known : (c, d) ∈ pairOperators) :
      Recognised .operator [c, d] u
  | sign {c : Char} {u : List Char} (known : isOperatorChar c = true)
      (alone : ∀ d ∈ u.head?, (c, d) ∉ pairOperators) (bare : comment (c :: u) = 0) :
      Recognised .operator [c] u
  | punct {c : Char} {u : List Char} (known : isPunct c = true) : Recognised .punct [c] u

/-- What stands behind a token can be `v` as well as `u`. -/
structure Exchanged (kind : TokenKind) (text u v : List Char) : Prop where
  word : endsWord u = true → endsWord v = true
  fraction : hasFraction u = false → hasFraction v = false
  pair : ∀ c, (∀ d ∈ u.head?, (c, d) ∉ pairOperators) → ∀ d ∈ v.head?, (c, d) ∉ pairOperators
  bare : ∀ c, text = [c] → comment (c :: u) = 0 → comment (c :: v) = 0
  line : kind = .comment → (∀ d ∈ u.head?, d = '\n') → ∀ d ∈ v.head?, d = '\n'
  blank : kind = .whitespace → (∀ d ∈ u.head?, isWhitespace d = false) →
    ∀ d ∈ v.head?, isWhitespace d = false

theorem Recognised.exchange {v : List Char} (h : Recognised kind text u)
    (hv : Exchanged kind text u v) : Recognised kind text v := by
  cases h with
  | line inside stops => exact .line inside (hv.line rfl stops)
  | block closes => exact .block closes
  | backslash => exact .backslash
  | blanks inside stops => exact .blanks inside (hv.blank rfl stops)
  | word starts inside ends known => exact .word starts inside (hv.word ends) known
  | whole inside ends alone => exact .whole inside (hv.word ends) (hv.fraction alone)
  | fraction inside behind digits ends => exact .fraction inside behind digits (hv.word ends)
  | double closes => exact .double closes
  | single inside => exact .single inside
  | newline => exact .newline
  | pair known => exact .pair known
  | sign known alone bare => exact .sign known (hv.pair _ alone) (hv.bare _ rfl bare)
  | punct known => exact .punct known

theorem comment_line (h : '\n' ∉ cs) (hu : ∀ d ∈ u.head?, d = '\n') :
    comment ('/' :: '/' :: (cs ++ u)) = cs.length + 2 := by
  have hall : ∀ d ∈ cs, (d != '\n') = true := by
    intro d hd
    rw [bne_iff_ne]
    rintro rfl
    exact h hd
  have hstop : ∀ d ∈ u.head?, (d != '\n') = false := by
    intro d hd
    simpa using hu d hd
  rw [comment, takeWhile_stops hall hstop, Nat.add_comm]

theorem comment_block (h : closeComment cs = some cs.length) (u : List Char) :
    comment ('/' :: '*' :: (cs ++ u)) = cs.length + 2 := by
  simp only [comment, closeComment_append h, Option.map_some, Option.getD_some]

theorem comment_of_ne (h : c ≠ '/') (cs : List Char) : comment (c :: cs) = 0 := by
  refine comment.eq_3 _ ?_ ?_
  all_goals
    intro r hr
    exact h (List.cons.inj hr).1

theorem whitespace_blanks (h : ∀ d ∈ cs, isWhitespace d = true)
    (hu : ∀ d ∈ u.head?, isWhitespace d = false) : whitespace (cs ++ u) = cs.length := by
  rw [whitespace, takeWhile_stops h hu]

/-- A name is read whole where a word may end behind it. -/
theorem nameAt_word (hc : isNameStart c = true) (hcs : ∀ d ∈ cs, isNameChar d = true)
    (hu : endsWord u = true) : nameAt (c :: (cs ++ u)) = c :: cs := by
  rw [nameAt, if_pos hc, takeWhile_ends (fun _ => isWordChar_of_name) hcs hu]

theorem ident_word (hc : isNameStart c = true) (hcs : ∀ d ∈ cs, isNameChar d = true)
    (hu : endsWord u = true) : ident (c :: (cs ++ u)) = cs.length + 1 := by
  rw [ident, nameAt_word hc hcs hu, ← List.cons_append, List.drop_left, hu]
  rfl

theorem number_digits (h : (cs ++ u).takeWhile isAsciiDigit = cs) (hne : cs ≠ []) :
    number (cs ++ u) =
      if hasFraction u then cs.length + 1 + (fractionAt u).length
      else if endsWord u then cs.length else 0 := by
  have hempty : cs.isEmpty = false := by simpa using hne
  simp only [number, h, List.drop_left, hempty, Bool.false_eq_true, if_false]
  rfl

theorem number_whole (hcs : ∀ d ∈ cs, isAsciiDigit d = true) (hne : cs ≠ [])
    (hu : endsWord u = true) (hf : hasFraction u = false) : number (cs ++ u) = cs.length := by
  rw [number_digits (takeWhile_ends (fun _ => isWordChar_of_digit) hcs hu) hne, hf, hu]
  rfl

theorem number_fraction {ds : List Char} (hcs : ∀ d ∈ cs, isAsciiDigit d = true) (hne : cs ≠ [])
    (hds : ∀ d ∈ ds, isAsciiDigit d = true) (hne' : ds ≠ []) (hu : endsWord u = true) :
    number (cs ++ '.' :: (ds ++ u)) = cs.length + 1 + ds.length := by
  have hpoint : endsWord ('.' :: (ds ++ u)) = true := by
    have hw : isWordChar '.' = false := by decide
    simp [endsWord, hw]
  have hf : fractionAt ('.' :: (ds ++ u)) = ds :=
    takeWhile_ends (fun _ => isWordChar_of_digit) hds hu
  have htaken : hasFraction ('.' :: (ds ++ u)) = true := by
    rw [hasFraction, hf, Nat.add_comm, List.drop_succ_cons, List.drop_left, hu]
    simpa using hne'
  rw [number_digits (takeWhile_ends (fun _ => isWordChar_of_digit) hcs hpoint) hne, htaken, hf]
  rfl

theorem string_double (h : closingQuote (cs ++ ['"']) = some cs.length) (u : List Char) :
    string ('"' :: (cs ++ '"' :: u)) = cs.length + 2 := by
  have hc := closingQuote_append h u
  rw [List.append_assoc, List.singleton_append] at hc
  simp only [string, hc, Option.some_or, Option.map_some, Option.getD_some]

theorem string_single (h : '\x27' ∉ cs) (u : List Char) :
    string ('\x27' :: (cs ++ '\x27' :: u)) = cs.length + 2 := by
  simp only [string, singleQuote_content h, Option.map_some, Option.getD_some]

theorem operator_sign (hc : isOperatorChar c = true)
    (hu : ∀ d ∈ u.head?, (c, d) ∉ pairOperators) : operator (c :: u) = 1 := by
  cases u with
  | nil => simp [operator, hc]
  | cons d u => simp [operator, hc, hu d rfl]

theorem operator_pair {d : Char} (h : (c, d) ∈ pairOperators) (u : List Char) :
    operator (c :: d :: u) = 2 := by
  simp [operator, h]

/-- No pair of operator characters opens a comment. -/
theorem comment_pair {d : Char} (h : (c, d) ∈ pairOperators) (u : List Char) :
    comment (c :: d :: u) = 0 := by
  have hall : ∀ q ∈ pairOperators, q.1 ≠ '/' ∨ q.2 = '=' := by decide
  rcases hall _ h with hc | rfl
  · exact comment_of_ne hc _
  · refine comment.eq_3 _ ?_ ?_
    all_goals
      intro r hr
      simp at hr

/-- Reserved words are told apart from other names by the whole name. -/
theorem classify_word (hc : isNameStart c = true) (hcs : ∀ d ∈ cs, isNameChar d = true)
    (hu : endsWord u = true) :
    classify (c :: (cs ++ u)) = some (kindOf (String.ofList (c :: cs)), cs.length) := by
  have hreserved (words : List String) : reserved words (c :: (cs ++ u)) =
      if String.ofList (c :: cs) ∈ words then cs.length + 1 else 0 := by
    rw [reserved, nameAt_word hc hcs hu, ident_word hc hcs hu]
  rw [classify_name (kindAt_name hc), ident_word hc hcs hu, hreserved, hreserved, kindOf]
  split
  · rfl
  · split
    · rfl
    · simp [hc, matched]

/-- What is recognised is what the rules match. -/
theorem Recognised.classify (h : Recognised kind text u) :
    ∃ c cs, text = c :: cs ∧ classify (c :: (cs ++ u)) = some (kind, cs.length) := by
  have hslash : kindAt '/' = some .operator := by decide
  have hnumber : (TokenKind.number, number) ∈ rules := by simp [rules]
  have hstring : (TokenKind.string, string) ∈ rules := by simp [rules]
  cases h with
  | line inside stops =>
    refine ⟨_, _, rfl, ?_⟩
    rw [List.cons_append, classify_sign hslash, comment_line inside stops]
    rfl
  | block closes =>
    refine ⟨_, _, rfl, ?_⟩
    rw [List.cons_append, classify_sign hslash, comment_block closes]
    rfl
  | backslash =>
    have hm : (TokenKind.backslash, Lexical.backslash) ∈ rules := by simp [rules]
    exact ⟨_, _, rfl, classify_sole (by decide) hm rfl⟩
  | blanks inside stops =>
    have hm : (TokenKind.whitespace, whitespace) ∈ rules := by simp [rules]
    exact ⟨_, _, rfl, classify_sole (by decide) hm (whitespace_blanks inside stops)⟩
  | word starts inside ends known =>
    rw [← known]
    exact ⟨_, _, rfl, classify_word starts inside ends⟩
  | whole inside ends alone =>
    refine ⟨_, _, rfl, classify_sole (by decide) hnumber ?_⟩
    exact number_whole inside (List.cons_ne_nil _ _) ends alone
  | fraction inside behind digits ends =>
    refine ⟨_, _, rfl, classify_sole (by decide) hnumber ?_⟩
    rw [List.append_assoc, List.cons_append, ← List.cons_append,
      number_fraction inside (List.cons_ne_nil _ _) digits behind ends]
    simp only [List.length_cons, List.length_append]
    omega
  | double closes =>
    refine ⟨_, _, rfl, classify_sole (by decide) hstring ?_⟩
    rw [List.append_assoc, List.singleton_append, string_double closes, List.length_append]
    rfl
  | single inside =>
    refine ⟨_, _, rfl, classify_sole (by decide) hstring ?_⟩
    rw [List.append_assoc, List.singleton_append, string_single inside, List.length_append]
    rfl
  | newline =>
    have hm : (TokenKind.newline, Lexical.newline) ∈ rules := by simp [rules]
    exact ⟨_, _, rfl, classify_sole (by decide) hm rfl⟩
  | pair known =>
    refine ⟨_, _, rfl, ?_⟩
    have hk := kindAt_operator (mem_operatorStarts_of_pair known)
    rw [List.singleton_append, classify_sign hk, comment_pair known,
      operator_pair known]
    rfl
  | sign known alone bare =>
    refine ⟨_, _, rfl, ?_⟩
    rw [List.nil_append, classify_sign (kindAt_operator (mem_operatorStarts known)), bare,
      operator_sign known alone]
    rfl
  | punct known =>
    have hm : (TokenKind.punct, Lexical.punct) ∈ rules := by simp [rules]
    exact ⟨_, _, rfl, classify_sole (by decide) hm (by simp [Lexical.punct, known])⟩

/-- The first character of a token tells its kind. -/
theorem Recognised.kindAt (h : Recognised kind (c :: cs) u) : kindAt c = some (kindGroup kind) := by
  obtain ⟨d, ds, heq, hc⟩ := h.classify
  obtain ⟨rfl, rfl⟩ := List.cons.inj heq
  exact kindAt_of_classify hc

/-! What a rule has matched -/

/-- A match of a rule, and what is left behind it. -/
def Matches (kind : TokenKind) (n : Nat) (cs : List Char) : Prop :=
  ∃ text u, cs = text ++ u ∧ text.length = n ∧ Recognised kind text u

theorem dropWhile_stops (p : Char → Bool) (cs : List Char) :
    ∀ d ∈ (cs.dropWhile p).head?, p d = false := by
  intro d hd
  have hn := List.head?_dropWhile_not p cs
  rw [Option.mem_def.mp hd] at hn
  simpa using hn

theorem takeWhile_split (p : Char → Bool) (cs : List Char) :
    ∃ u, cs = cs.takeWhile p ++ u ∧ ∀ d ∈ u.head?, p d = false :=
  ⟨cs.dropWhile p, List.takeWhile_append_dropWhile.symm, dropWhile_stops p cs⟩

theorem of_mem_takeWhile {p : Char → Bool} (h : c ∈ cs.takeWhile p) : p c = true :=
  List.all_eq_true.mp List.all_takeWhile c h

theorem matches_comment (h : comment cs ≠ 0) : Matches .comment (comment cs) cs := by
  fun_cases comment cs with
  | case1 cs =>
    obtain ⟨u, hu, hstop⟩ := takeWhile_split (· != '\n') cs
    refine ⟨'/' :: '/' :: cs.takeWhile (· != '\n'), u, ?_, ?_, .line ?_ ?_⟩
    · rw [List.cons_append, List.cons_append, ← hu]
    · simp only [List.length_cons]
      omega
    · intro hm
      have := of_mem_takeWhile hm
      simp at this
    · intro d hd
      simpa using hstop d hd
  | case2 cs =>
    cases hn : closeComment cs with
    | none => simp [comment, hn] at h
    | some n =>
      have hlen : (cs.take n).length = n := List.length_take_of_le (closeComment_le hn)
      refine ⟨'/' :: '*' :: cs.take n, cs.drop n, ?_, ?_, .block ?_⟩
      · rw [List.cons_append, List.cons_append, List.take_append_drop]
      · simp [hlen]
      · rw [hlen]
        exact closeComment_take hn
  | case3 => simp [comment] at h

theorem matches_whitespace (h : whitespace cs ≠ 0) : Matches .whitespace (whitespace cs) cs := by
  obtain ⟨u, hu, hstop⟩ := takeWhile_split isWhitespace cs
  refine ⟨cs.takeWhile isWhitespace, u, hu, rfl, ?_⟩
  cases ht : cs.takeWhile isWhitespace with
  | nil => simp [whitespace, ht] at h
  | cons d ds =>
    refine .blanks ?_ hstop
    intro e he
    exact of_mem_takeWhile (by rw [ht]; exact he)

theorem matches_ident (h : ident cs ≠ 0) :
    Matches (kindOf (String.ofList (cs.take (ident cs)))) (ident cs) cs := by
  cases cs with
  | nil => exact absurd rfl h
  | cons c cs =>
    have hc : isNameStart c = true := by
      cases hc : isNameStart c with
      | false => exact absurd (ident_cons hc) h
      | true => rfl
    obtain ⟨u, hu, hstop⟩ := takeWhile_split isNameChar cs
    have hall : ∀ d ∈ cs.takeWhile isNameChar, isNameChar d = true :=
      fun d hd => of_mem_takeWhile hd
    generalize cs.takeWhile isNameChar = ds at hu hall
    subst hu
    have hname : nameAt (c :: (ds ++ u)) = c :: ds := by
      rw [nameAt, if_pos hc, takeWhile_stops hall hstop]
    have hends : endsWord u = true := by
      cases hends : endsWord u with
      | false => simp [ident, hname, hends] at h
      | true => rfl
    rw [ident_word hc hall hends, List.take_succ_cons, List.take_left]
    exact ⟨c :: ds, u, rfl, rfl, .word hc hall hends rfl⟩

theorem matches_reserved {words : List String} (h : reserved words cs ≠ 0)
    (hk : kindOf (String.ofList (cs.take (reserved words cs))) = kind) :
    Matches kind (reserved words cs) cs := by
  have hident : reserved words cs = ident cs := by
    unfold reserved at h ⊢
    split
    · rfl
    · next hw => exact absurd (if_neg hw) h
  rw [← hk, hident]
  exact matches_ident (hident ▸ h)

theorem hasFraction_digits (hne : cs ≠ []) (hcs : ∀ d ∈ cs, isAsciiDigit d = true)
    (hu : endsWord u = true) : hasFraction ('.' :: (cs ++ u)) = true := by
  have hf : fractionAt ('.' :: (cs ++ u)) = cs :=
    takeWhile_ends (fun _ => isWordChar_of_digit) hcs hu
  rw [hasFraction, hf, Nat.add_comm, List.drop_succ_cons, List.drop_left, hu]
  simpa using hne

theorem hasFraction_split (h : hasFraction u = true) : ∃ ds rest, u = '.' :: (ds ++ rest) ∧
    ds ≠ [] ∧ (∀ d ∈ ds, isAsciiDigit d = true) ∧ endsWord rest = true := by
  simp only [hasFraction, Bool.and_eq_true, Bool.not_eq_true', List.isEmpty_eq_false_iff] at h
  obtain ⟨hne, hends⟩ := h
  revert hne hends
  fun_cases fractionAt u with
  | case1 cs =>
    intro hne hends
    rw [Nat.add_comm, List.drop_succ_cons] at hends
    obtain ⟨rest, hrest, -⟩ := takeWhile_split isAsciiDigit cs
    have hall : ∀ d ∈ cs.takeWhile isAsciiDigit, isAsciiDigit d = true :=
      fun d hd => of_mem_takeWhile hd
    generalize cs.takeWhile isAsciiDigit = ds at hne hends hrest hall
    subst hrest
    rw [List.drop_left] at hends
    exact ⟨ds, rest, rfl, hne, hall, hends⟩
  | case2 => exact fun hne => absurd rfl hne

theorem matches_number (h : number cs ≠ 0) : Matches .number (number cs) cs := by
  obtain ⟨u, hu, hstop⟩ := takeWhile_split isAsciiDigit cs
  have hdigits : ∀ d ∈ cs.takeWhile isAsciiDigit, isAsciiDigit d = true :=
    fun d hd => of_mem_takeWhile hd
  cases hds : cs.takeWhile isAsciiDigit with
  | nil => simp [number, hds] at h
  | cons d ds =>
    rw [hds] at hu hdigits
    have hne : d :: ds ≠ [] := List.cons_ne_nil d ds
    subst hu
    cases hf : hasFraction u with
    | true =>
      obtain ⟨fs, u, rfl, hfs, hall, hends⟩ := hasFraction_split hf
      refine ⟨d :: (ds ++ '.' :: fs), u, by simp, ?_, .fraction hdigits hfs hall hends⟩
      rw [number_fraction hdigits hne hall hfs hends]
      simp only [List.length_cons, List.length_append]
      omega
    | false =>
      rw [number_digits (takeWhile_stops hdigits hstop) hne, hf] at h ⊢
      cases hends : endsWord u with
      | false => simp [hends] at h
      | true => exact ⟨d :: ds, u, rfl, rfl, .whole hdigits hends hf⟩

theorem matches_operator (h : operator cs ≠ 0) (hc : comment cs = 0) :
    Matches .operator (operator cs) cs := by
  cases cs with
  | nil => exact absurd rfl h
  | cons c cs =>
    by_cases hpair : ∃ d u, cs = d :: u ∧ (c, d) ∈ pairOperators
    · obtain ⟨d, u, rfl, hd⟩ := hpair
      exact ⟨[c, d], u, rfl, (operator_pair hd u).symm, .pair hd⟩
    · have hnone : ∀ d ∈ cs.head?, (c, d) ∉ pairOperators := by
        intro d hd hmem
        obtain ⟨u, rfl⟩ := List.head?_eq_some_iff.mp hd
        exact hpair ⟨d, u, rfl, hmem⟩
      have hsign : isOperatorChar c = true := by
        cases cs with
        | nil => simpa [operator] using h
        | cons d u => simpa [operator, hnone d rfl] using h
      exact ⟨[c], cs, rfl, (operator_sign hsign hnone).symm, .sign hsign hnone hc⟩

theorem matches_string (h : string cs ≠ 0)
    (hc : ∀ r, cs = '"' :: r → (closingQuote r).isSome = true) :
    Matches .string (string cs) cs := by
  fun_cases string cs with
  | case1 cs =>
    obtain ⟨n, hn⟩ := Option.isSome_iff_exists.mp (hc cs rfl)
    obtain ⟨hsplit, hlen⟩ := split_at (closingQuote_at hn)
    refine ⟨'"' :: (cs.take n ++ ['"']), cs.drop (n + 1), ?_, ?_, .double ?_⟩
    · rw [List.cons_append, ← hsplit]
    · simp [hn, hlen]
    · rw [closingQuote_take hn, hlen]
  | case2 cs =>
    cases hn : singleQuote cs with
    | none => simp [string, hn] at h
    | some n =>
      obtain ⟨hsplit, hlen⟩ := split_at (singleQuote_at hn)
      refine ⟨'\x27' :: (cs.take n ++ ['\x27']), cs.drop (n + 1), ?_, ?_, .single ?_⟩
      · rw [List.cons_append, ← hsplit]
      · simp [hlen]
      · exact singleQuote_take hn
  | case3 => simp [string] at h

/-- An operator is taken only where no comment is. -/
theorem classify_bare (h : classify cs = some (.operator, extra)) : comment cs = 0 := by
  cases cs with
  | nil => rfl
  | cons c cs =>
    rw [classify_sign (kindAt_of_classify h)] at h
    cases hc : comment (c :: cs) with
    | zero => rfl
    | succ n => simp [hc, matched] at h

/-- A match of the rules is a token by its own text, provided that a double quote is closed. -/
theorem matches_of_classify (h : classify cs = some (kind, extra))
    (hc : ∀ r, cs = '"' :: r → (closingQuote r).isSome = true) : Matches kind (extra + 1) cs := by
  obtain ⟨rule, hm, hr⟩ := classify_rule h
  have hne : rule cs ≠ 0 := by omega
  rw [← hr]
  cases kind with
  | eof => exact absurd rfl (classify_ne_eof h)
  | comment =>
    obtain rfl : rule = comment := by simpa [rules] using hm
    exact matches_comment hne
  | backslash =>
    obtain rfl : rule = Lexical.backslash := by simpa [rules] using hm
    cases cs with
    | nil => exact absurd rfl hne
    | cons c cs =>
      rw [backslash_cons] at hne ⊢
      split at hne
      · next hb => exact ⟨['\\'], cs, by rw [hb]; rfl, by simp [hb], .backslash⟩
      · exact absurd rfl hne
  | newline =>
    obtain rfl : rule = Lexical.newline := by simpa [rules] using hm
    cases cs with
    | nil => exact absurd rfl hne
    | cons c cs =>
      rw [newline_cons] at hne ⊢
      split at hne
      · next hb => exact ⟨['\n'], cs, by rw [hb]; rfl, by simp [hb], .newline⟩
      · exact absurd rfl hne
  | whitespace =>
    obtain rfl : rule = whitespace := by simpa [rules] using hm
    exact matches_whitespace hne
  | modifier =>
    obtain rfl : rule = reserved modifierWords := by simpa [rules] using hm
    exact matches_reserved hne (by rw [hr]; exact kindOf_classify h rfl (by simp))
  | keyword =>
    obtain rfl : rule = reserved keywordWords := by simpa [rules] using hm
    exact matches_reserved hne (by rw [hr]; exact kindOf_classify h rfl (by simp))
  | ident =>
    obtain rfl : rule = ident := by simpa [rules] using hm
    have hk := kindOf_classify h rfl (by simp)
    rw [← hr] at hk
    rw [← hk]
    exact matches_ident hne
  | number =>
    obtain rfl : rule = number := by simpa [rules] using hm
    exact matches_number hne
  | string =>
    obtain rfl : rule = string := by simpa [rules] using hm
    exact matches_string hne hc
  | operator =>
    obtain rfl : rule = operator := by simpa [rules] using hm
    exact matches_operator hne (classify_bare h)
  | punct =>
    obtain rfl : rule = Lexical.punct := by simpa [rules] using hm
    cases cs with
    | nil => exact absurd rfl hne
    | cons c cs =>
      cases hp : isPunct c with
      | false => simp [Lexical.punct, hp] at hne
      | true => exact ⟨[c], cs, rfl, by simp [Lexical.punct, hp], .punct hp⟩

/-! Pieces -/

theorem pieces_cons {kind : TokenKind} {extra : Nat} {value : String}
    (hc : classify (c :: rest) = some (kind, extra))
    (hv : valueOf kind (c :: rest.take extra) = .ok value) :
    pieces (c :: rest) = (⟨⟨kind, value⟩, c :: rest.take extra⟩ :: (pieces (rest.drop extra)).1,
      (pieces (rest.drop extra)).2) := by
  rw [pieces.eq_def]
  simp only [hc, hv]

/-- A quote starts a string and nothing else. -/
theorem classify_quote (h : kindAt c = some .string) (cs : List Char) :
    classify (c :: cs) = matched .string (string (c :: cs)) := by
  rw [classify_of_kindAt h]
  simp [rules, kindGroup]

theorem classify_double (h : classify ('"' :: rest) = some (kind, extra)) :
    kind = .string ∧ string ('"' :: rest) = extra + 1 := by
  rw [classify_quote (by decide)] at h
  unfold matched at h
  split at h
  · cases h
  · next hs =>
    cases h
    exact ⟨rfl, hs⟩

/-- A double-quoted string that has a value is closed: up to the last quote there would be an escape
that takes it along. -/
theorem closed_of_value {kind : TokenKind} {extra : Nat} {value : String}
    (hc : classify ('"' :: rest) = some (kind, extra))
    (hv : valueOf kind ('"' :: rest.take extra) = .ok value) :
    (closingQuote rest).isSome = true := by
  obtain ⟨rfl, hs⟩ := classify_double hc
  cases hclose : closingQuote rest with
  | some n => rfl
  | none =>
    cases hlast : lastQuote rest with
    | none => simp [string, hclose, hlast] at hs
    | some n =>
      obtain rfl : extra = n + 1 := by simpa [string, hclose, hlast] using hs.symm
      have hn := lastQuote_at hlast
      rw [take_to hn] at hv
      obtain ⟨v, hu⟩ : ∃ v, unescape (rest.take n) = .ok v := by
        simp only [valueOf, if_true, List.drop_succ_cons, List.drop_zero, List.dropLast_concat,
          List.head?_cons] at hv
        split at hv
        · next v hu => exact ⟨v, hu⟩
        · cases hv
      have hsplit : rest.take n ++ '"' :: rest.drop (n + 1) = rest := by
        rw [← List.singleton_append, ← List.append_assoc, ← take_to hn, List.take_append_drop]
      have hsome := closingQuote_of_unescape hu (rest.drop (n + 1))
      rw [hsplit, hclose] at hsome
      cases hsome

theorem pieces_of_recognised {value : String} (h : Recognised kind text u)
    (hv : valueOf kind text = .ok value) :
    pieces (text ++ u) = (⟨⟨kind, value⟩, text⟩ :: (pieces u).1, (pieces u).2) := by
  obtain ⟨c, cs, rfl, hc⟩ := h.classify
  have htake : (cs ++ u).take cs.length = cs := List.take_left
  rw [List.cons_append, pieces_cons hc (by rwa [htake]), htake, List.drop_left]

/-- The first piece of a text is recognised before what is left, from which the others come. -/
theorem recognised_of_pieces {p : Piece} {ps : List Piece} {fault : Option Cause}
    (h : pieces cs = (p :: ps, fault)) : ∃ u, cs = p.text ++ u ∧ Recognised p.kind p.text u ∧
      valueOf p.kind p.text = .ok p.value ∧ pieces u = (ps, fault) := by
  unfold pieces at h
  split at h
  · cases h
  · next c rest =>
    split at h
    · cases h
    · next kind extra hc =>
      simp only at h
      split at h
      · cases h
      · next value hv =>
        simp only [Prod.mk.injEq, List.cons.injEq] at h
        obtain ⟨⟨rfl, hps⟩, hfault⟩ := h
        have hclosed : ∀ r, c :: rest = '"' :: r → (closingQuote r).isSome = true := by
          intro r hr
          obtain ⟨rfl, rfl⟩ := List.cons.inj hr
          exact closed_of_value hc hv
        obtain ⟨text, u, hsplit, hlen, hrec⟩ := matches_of_classify hc hclosed
        have htext : text = c :: rest.take extra := by
          rw [← List.take_succ_cons, hsplit, ← hlen, List.take_left]
        have hu : u = rest.drop extra := by
          rw [← List.drop_succ_cons (a := c), hsplit, ← hlen, List.drop_left]
        subst htext hu
        exact ⟨_, hsplit, hrec, hv, Prod.ext hps hfault⟩

end Lexical
end Syntree
