import Mathlib.Data.List.Forall2
import Mathlib.Data.Nat.Digits.Defs
import Syntree.Proofs.Recognition

/-!
How the characters of a string can be spelled between double quotes, and that each spelling is read
back: the search for the closing quote and the resolution of escapes agree on where a spelling ends.
-/

namespace Syntree

namespace Text

variable {c d : Char} {ds w : List Char} {radix n k : Nat}

/-- `Writes k d`: the digit `d` stands for `k`, in lower or upper case. -/
def Writes (k : Nat) (d : Char) : Prop :=
  d = k.digitChar ∨ d = k.digitChar.toUpper

instance (k : Nat) (d : Char) : Decidable (Writes k d) :=
  inferInstanceAs (Decidable (d = k.digitChar ∨ d = k.digitChar.toUpper))

/-- `Numeral radix ds n`: the digits `ds` write `n`, the most significant first. -/
def Numeral (radix : Nat) (ds : List Char) (n : Nat) : Prop :=
  ∃ ks : List Nat, (∀ k ∈ ks, k < radix) ∧ List.Forall₂ Writes ks ds ∧
    Nat.ofDigits radix ks.reverse = n

/-- The escapes of a single letter or mark, with what they stand for. -/
def simpleEscapes : List (Char × Char) :=
  [('n', '\n'), ('t', '\t'), ('r', '\r'), ('a', '\x07'), ('b', '\x08'), ('f', '\x0c'),
    ('v', '\x0b'), ('\\', '\\'), ('"', '"')]

/-- The letters that announce a code point in hexadecimal digits, with the number of digits. -/
def hexEscapes : List (Char × Nat) :=
  [('x', 2), ('u', 4), ('U', 8)]

/-- `Spells c w`: in a literal, `w` stands for the character `c`. -/
inductive Spells (c : Char) : List Char → Prop
  | plain (h : c ≠ '\\') : Spells c [c]
  | simple {mark : Char} (known : (mark, c) ∈ simpleEscapes) : Spells c ['\\', mark]
  | hex {mark : Char} {width : Nat} {ds : List Char} (known : (mark, width) ∈ hexEscapes)
      (long : ds.length = width) (number : Numeral 16 ds c.toNat) : Spells c ('\\' :: mark :: ds)
  | octal {ds : List Char} (long : ds.length = 3) (small : c.toNat ≤ 255)
      (number : Numeral 8 ds c.toNat) : Spells c ('\\' :: ds)

/-! Digits -/

theorem Writes.digitValue (h : Writes k d) (hk : k < 16) : digitValue d = some k := by
  have hall : ∀ k < 16, Text.digitValue k.digitChar = some k ∧
      Text.digitValue k.digitChar.toUpper = some k := by decide
  rcases h with rfl | rfl
  · exact (hall k hk).1
  · exact (hall k hk).2

theorem isDigitOf_writes {ks : List Nat} (hr : radix ≤ 16) (hk : ∀ k ∈ ks, k < radix)
    (h : List.Forall₂ Writes ks ds) : ∀ d ∈ ds, isDigitOf radix d = true := by
  induction h with
  | nil => intro d hd; cases hd
  | cons hw _ ih =>
    obtain ⟨hlt, hk⟩ := List.forall_mem_cons.mp hk
    rw [List.forall_mem_cons]
    refine ⟨?_, ih hk⟩
    rw [isDigitOf, hw.digitValue (Nat.lt_of_lt_of_le hlt hr)]
    simpa using hlt

theorem foldl_writes {ks : List Nat} (hr : radix ≤ 16) (hk : ∀ k ∈ ks, k < radix)
    (h : List.Forall₂ Writes ks ds) (m : Nat) :
    ds.foldl (fun n d => n * radix + (digitValue d).getD 0) m =
      m * radix ^ ks.length + Nat.ofDigits radix ks.reverse := by
  induction h generalizing m with
  | nil => simp
  | cons hw _ ih =>
    obtain ⟨hlt, hk⟩ := List.forall_mem_cons.mp hk
    rw [List.foldl_cons, hw.digitValue (Nat.lt_of_lt_of_le hlt hr), Option.getD_some, ih hk,
      Nat.ofDigits_reverse_cons, List.length_cons]
    ring

theorem Numeral.isDigitOf (h : Numeral radix ds n) (hr : radix ≤ 16) :
    ∀ d ∈ ds, isDigitOf radix d = true := by
  obtain ⟨ks, hk, hw, -⟩ := h
  exact isDigitOf_writes hr hk hw

theorem Numeral.digitsValue (h : Numeral radix ds n) (hr : radix ≤ 16) :
    digitsValue radix ds = n := by
  obtain ⟨ks, hk, hw, rfl⟩ := h
  rw [Text.digitsValue, foldl_writes hr hk hw, Nat.zero_mul, Nat.zero_add]

theorem Numeral.lt (h : Numeral radix ds n) (hr : 1 < radix) : n < radix ^ ds.length := by
  obtain ⟨ks, hk, hw, rfl⟩ := h
  have hlt := Nat.ofDigits_lt_base_pow_length hr (l := ks.reverse) (by simpa using hk)
  rwa [List.length_reverse, hw.length_eq] at hlt

theorem scalar?_toNat (c : Char) : scalar? c.toNat = some c := by
  have hvalid : c.toNat.isValidChar := c.valid
  rw [scalar?, if_pos hvalid, Char.ofNat_toNat]

/-- A numeral of the right length is what a numeric escape takes, and is read back. -/
theorem Numeral.decode (form : NumericForm) (h : Numeral form.radix ds c.toNat)
    (hr : form.radix ≤ 16) (hlen : ds.length = form.width) (hlim : c.toNat ≤ form.limit)
    (rest : List Char) : form.digits (ds ++ rest) = ds ∧ form.decode? ds = some c := by
  constructor
  · have hall := Lexical.takeWhile_stops (u := []) (h.isDigitOf hr) (by simp)
    rw [NumericForm.digits, ← hlen, List.take_left]
    rwa [List.append_nil] at hall
  · rw [NumericForm.decode?, h.digitsValue hr]
    simp [hlen, hlim, scalar?_toNat]

/-! Reading a spelling -/

theorem unescape_plain (h : c ≠ '\\') (rest : List Char) :
    unescape (c :: rest) = (unescape rest).map (c :: ·) :=
  unescape.eq_4 c rest (fun hc _ => h hc) fun _ _ hc _ => h hc

theorem unescape_simple {mark : Char} (h : (mark, c) ∈ simpleEscapes) (rest : List Char) :
    unescape ('\\' :: mark :: rest) = (unescape rest).map (c :: ·) := by
  have hall : ∀ q ∈ simpleEscapes, simpleEscape q.1 = some q.2 := by decide
  rw [unescape.eq_3, hall _ h]

theorem unescape_hex {mark : Char} {width : Nat} (h : (mark, width) ∈ hexEscapes)
    (hlen : ds.length = width) (hn : Numeral 16 ds c.toNat) (rest : List Char) :
    unescape ('\\' :: mark :: (ds ++ rest)) = (unescape rest).map (c :: ·) := by
  have hall : ∀ q ∈ hexEscapes, simpleEscape q.1 = none ∧ numericEscape q.1 = some (.hex q.2) ∧
      NumericForm.hex q.2 ≠ .octal := by decide
  obtain ⟨hsimple, hform, hne⟩ := hall _ h
  have hlim : c.toNat ≤ (NumericForm.hex width).limit := by
    have hlt := hn.lt (by decide)
    rw [hlen] at hlt
    exact Nat.le_pred_of_lt hlt
  obtain ⟨hdigits, hdecode⟩ := hn.decode (.hex width) (Nat.le_refl 16) hlen hlim rest
  have hdrop : (mark :: (ds ++ rest)).drop (1 + (NumericForm.hex width).width) = rest := by
    rw [Nat.add_comm, List.drop_succ_cons]
    exact List.drop_left' hlen
  simp only [unescape.eq_3, hsimple, hform, if_neg hne, List.length_singleton, List.drop_succ_cons,
    List.drop_zero, hdigits, hdecode, hdrop]

theorem octal_announced (h : isDigitOf 8 d = true) :
    simpleEscape d = none ∧ numericEscape d = some .octal := by
  constructor
  · fun_cases simpleEscape d with
    | case10 => rfl
    | _ => exact absurd h (by decide)
  · fun_cases numericEscape d with
    | case4 => rfl
    | case5 => contradiction
    | _ => exact absurd h (by decide)

theorem unescape_octal (hlen : ds.length = 3) (hsmall : c.toNat ≤ 255)
    (hn : Numeral 8 ds c.toNat) (rest : List Char) :
    unescape ('\\' :: (ds ++ rest)) = (unescape rest).map (c :: ·) := by
  obtain ⟨hdigits, hdecode⟩ := hn.decode .octal (by decide) hlen hsmall rest
  have hdrop : (ds ++ rest).drop NumericForm.octal.width = rest := List.drop_left' hlen
  cases ds with
  | nil => cases hlen
  | cons d ds =>
    obtain ⟨hsimple, hform⟩ := octal_announced (hn.isDigitOf (by decide) d List.mem_cons_self)
    rw [List.cons_append] at hdigits hdrop ⊢
    simp only [unescape.eq_3, hsimple, hform, if_true, List.length_nil, List.drop_zero, hdigits,
      hdecode, Nat.zero_add, hdrop]

theorem Spells.unescape (h : Spells c w) (rest : List Char) :
    unescape (w ++ rest) = (Text.unescape rest).map (c :: ·) := by
  cases h with
  | plain h => exact unescape_plain h rest
  | simple known => exact unescape_simple known rest
  | hex known long number => exact unescape_hex known long number rest
  | octal long small number => exact unescape_octal long small number rest

theorem closingQuote_escape {mark : Char} (h : ∀ d ∈ ds, d ≠ '\\' ∧ d ≠ '"') (rest : List Char) :
    Lexical.closingQuote ('\\' :: mark :: (ds ++ rest)) =
      (Lexical.closingQuote rest).map (· + (ds.length + 2)) := by
  rw [Lexical.closingQuote, Lexical.closingQuote_skip h, Option.map_map]
  rfl

theorem Numeral.not_mark (h : Numeral radix ds n) (hr : radix ≤ 16) :
    ∀ d ∈ ds, d ≠ '\\' ∧ d ≠ '"' := by
  intro d hd
  exact Lexical.not_mark_of_digit (h.isDigitOf hr d hd)

/-- No quote closes a literal in a spelling other than the bare quote. -/
theorem Spells.closingQuote (h : Spells c w) (hq : w ≠ ['"']) (rest : List Char) :
    Lexical.closingQuote (w ++ rest) = (Lexical.closingQuote rest).map (· + w.length) := by
  cases h with
  | plain h =>
    apply Lexical.closingQuote_skip
    intro d hd
    obtain rfl := List.mem_singleton.mp hd
    exact ⟨h, fun hd => hq (by rw [hd])⟩
  | simple known => exact closingQuote_escape (by simp) rest
  | hex known long number => exact closingQuote_escape (number.not_mark (by decide)) rest
  | @octal ds long small number =>
    cases ds with
    | nil => cases long
    | cons d ds =>
      have hmarks := number.not_mark (by decide)
      exact closingQuote_escape (List.forall_mem_cons.mp hmarks).2 rest

end Text

/-- `Spelled c w`: between double quotes, `w` stands for `c`. -/
def Spelled (c : Char) (w : String) : Prop :=
  Text.Spells c w.toList ∧ w ≠ "\""

variable {cs : List Char} {ws : List String}

theorem Spelled.of_chars {c : Char} {w : String} {cs : List Char} (hw : w.toList = cs)
    (h : Text.Spells c cs) (hq : cs ≠ ['"']) : Spelled c w := by
  refine ⟨by rwa [hw], ?_⟩
  rintro rfl
  exact hq (hw.symm.trans (by simp))

theorem exists_spelled (c : Char) : ∃ w, Spelled c w := by
  by_cases hq : c = '"'
  · have hquote : Text.Spells '"' ['\\', '"'] := .simple (by decide)
    rw [hq]
    exact ⟨_, .of_chars String.toList_ofList hquote (by decide)⟩
  · by_cases hb : c = '\\'
    · have hback : Text.Spells '\\' ['\\', '\\'] := .simple (by decide)
      rw [hb]
      exact ⟨_, .of_chars String.toList_ofList hback (by decide)⟩
    · exact ⟨_, .of_chars String.toList_ofList (.plain hb) (by simpa using hq)⟩

theorem exists_spelling (cs : List Char) : ∃ ws, List.Forall₂ Spelled cs ws := by
  induction cs with
  | nil => exact ⟨[], .nil⟩
  | cons c cs ih =>
    obtain ⟨w, hw⟩ := exists_spelled c
    obtain ⟨ws, hws⟩ := ih
    exact ⟨w :: ws, .cons hw hws⟩

/-- A literal whose characters are all spelled out is resolved to them. -/
theorem unescape_spelled (h : List.Forall₂ Spelled cs ws) :
    Text.unescape (String.join ws).toList = .ok cs := by
  induction h with
  | nil => simp [Text.unescape]
  | cons hw _ ih =>
    rw [String.join_cons, String.toList_append, hw.1.unescape, ih]
    rfl

/-- Nor is such a literal closed before its end. -/
theorem closingQuote_spelled (h : List.Forall₂ Spelled cs ws) (rest : List Char) :
    Lexical.closingQuote ((String.join ws).toList ++ '"' :: rest) =
      some (String.join ws).toList.length := by
  induction h with
  | nil => simp [Lexical.closingQuote]
  | cons hw _ ih =>
    have hne := fun hq => hw.2 (String.toList_inj.mp hq)
    rw [String.join_cons, String.toList_append, List.append_assoc, hw.1.closingQuote hne, ih]
    simp [Nat.add_comm]

/-- A literal that is resolved and closed at its end is a piece of its own. -/
theorem pieces_literal {content value : List Char} (hu : Text.unescape content = .ok value)
    (hc : Lexical.closingQuote (content ++ ['"']) = some content.length) :
    Lexical.pieces ('"' :: (content ++ ['"'])) =
      ([⟨⟨.string, .ofList value⟩, '"' :: (content ++ ['"'])⟩], none) := by
  have hvalue : Lexical.valueOf .string ('"' :: (content ++ ['"'])) = .ok (.ofList value) := by
    simp [Lexical.valueOf, hu]
  have hcut := Lexical.pieces_of_recognised (u := []) (.double hc) hvalue
  rw [List.append_nil] at hcut
  rw [hcut, Lexical.pieces]

theorem scan_single {file source : String} {l : Lexeme}
    (h : Lexical.pieces source.toList = ([⟨l, source.toList⟩], none)) :
    scan file source = .ok [⟨l, ⟨.startOf file, .ofPlace file (.behind source.toList)⟩⟩,
      Lexical.eofAt (.ofPlace file (.behind source.toList))] := by
  have hstop : Place.start.after source.toList = .behind source.toList :=
    Place.behind_after [] source.toList
  rw [scan_of_pieces file h, Lexical.placed, Lexical.placed, hstop]
  rfl

/-- Every string has spellings, and from any of them between double quotes it is read back as a
token that spans them all. -/
theorem scan_spelled (file v : String) :
    (∃ ws, List.Forall₂ Spelled v.toList ws) ∧
    ∀ ws source, List.Forall₂ Spelled v.toList ws → source = "\"" ++ String.join ws ++ "\"" →
      ∃ stop, stop = .ofPlace file (.behind source.toList) ∧
        (source.utf8ByteSize < 2 ^ 32 → stop.offset.toNat = source.utf8ByteSize) ∧
        scan file source =
          .ok [⟨⟨.string, v⟩, ⟨.startOf file, stop⟩⟩, Lexical.eofAt stop] ∧
        tokenize file source =
          .ok [⟨⟨.string, v⟩, ⟨.startOf file, stop⟩⟩, Lexical.eofAt stop] := by
  refine ⟨exists_spelling v.toList, ?_⟩
  intro ws source h hsource
  have htext : source.toList = '"' :: ((String.join ws).toList ++ ['"']) := by
    rw [hsource, String.toList_append, String.toList_append]
    rfl
  have hcut := pieces_literal (unescape_spelled h) (closingQuote_spelled h [])
  rw [← htext, String.ofList_toList] at hcut
  have hscan : scan file source = _ := scan_single hcut
  refine ⟨_, rfl, ?_, hscan, ?_⟩
  · intro hsize
    rw [← bytes_toList] at hsize ⊢
    exact (Position.marks_behind file hsize).offset
  · rw [tokenize, hscan]
    rfl

/-- All kinds of escapes, digits of both cases behind them, a quote, and a newline that stands for
itself. -/
theorem scan_spelled_escapes :
    tokenize "f" "\"\\x4a1\\112\\u004A\\\"\\U0001f600\n\\\\\\n\"" =
      .ok [⟨⟨.string, "J1JJ\"😀\n\\\n"⟩, ⟨⟨"f", 0, 1, 1⟩, ⟨"f", 34, 2, 6⟩⟩⟩,
        ⟨.eof, ⟨⟨"f", 34, 2, 6⟩, ⟨"f", 34, 2, 6⟩⟩⟩] := by
  have hvalue : "J1JJ\"😀\n\\\n".toList = ['J', '1', 'J', 'J', '"', '😀', '\n', '\\', '\n'] := by
    decide +kernel
  have hx : Text.Spells 'J' ['\\', 'x', '4', 'a'] :=
    .hex (by decide) rfl ⟨[4, 10], by decide, by decide, by decide⟩
  have ho : Text.Spells 'J' ['\\', '1', '1', '2'] :=
    .octal rfl (by decide) ⟨[1, 1, 2], by decide, by decide, by decide⟩
  have hu : Text.Spells 'J' ['\\', 'u', '0', '0', '4', 'A'] :=
    .hex (by decide) rfl ⟨[0, 0, 4, 10], by decide, by decide, by decide⟩
  have hU : Text.Spells '😀' ['\\', 'U', '0', '0', '0', '1', 'f', '6', '0', '0'] :=
    .hex (by decide) rfl ⟨[0, 0, 0, 1, 15, 6, 0, 0], by decide, by decide, by decide⟩
  have hquote : Text.Spells '"' ['\\', '"'] := .simple (by decide)
  have hback : Text.Spells '\\' ['\\', '\\'] := .simple (by decide)
  have hnewline : Text.Spells '\n' ['\\', 'n'] := .simple (by decide)
  have h : List.Forall₂ Spelled "J1JJ\"😀\n\\\n".toList
      ["\\x4a", "1", "\\112", "\\u004A", "\\\"", "\\U0001f600", "\n", "\\\\", "\\n"] := by
    rw [hvalue]
    refine .cons (.of_chars ?_ hx (by decide)) <|
      .cons (.of_chars ?_ (.plain (by decide)) (by decide)) <|
      .cons (.of_chars ?_ ho (by decide)) <|
      .cons (.of_chars ?_ hu (by decide)) <|
      .cons (.of_chars ?_ hquote (by decide)) <|
      .cons (.of_chars ?_ hU (by decide)) <|
      .cons (.of_chars ?_ (.plain (by decide)) (by decide)) <|
      .cons (.of_chars ?_ hback (by decide)) <|
      .cons (.of_chars ?_ hnewline (by decide)) .nil
    all_goals decide +kernel
  obtain ⟨stop, hstop, -, -, hscan⟩ := (scan_spelled "f" "J1JJ\"😀\n\\\n").2 _
    "\"\\x4a1\\112\\u004A\\\"\\U0001f600\n\\\\\\n\"" h (by decide +kernel)
  obtain rfl : stop = ⟨"f", 34, 2, 6⟩ := hstop.trans (by decide +kernel)
  exact hscan

end Syntree
