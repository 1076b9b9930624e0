import Syntree.Token
import Syntree.Text.Word

/-!
The lexical rules. Each gives the length of its match at the start of a text, zero when it does not
match; at every place the first rule in order that matches wins.
-/

namespace Syntree.Lexical

open Text

/-- Whether no word character follows, so that a word or number may end here. -/
def endsWord : List Char → Bool
  | [] => true
  | c :: _ => !isWordChar c

/-- Up to the end of the first `*/`, counted from the start of the text. -/
def closeComment : List Char → Option Nat
  | '*' :: '/' :: _ => some 2
  | _ :: cs => (closeComment cs).map (· + 1)
  | [] => none

/-- A comment runs to the end of the line or to its closing mark. An open `/*` that is never closed
is no comment. -/
def comment : List Char → Nat
  | '/' :: '/' :: cs => 2 + (cs.takeWhile (· != '\n')).length
  | '/' :: '*' :: cs => ((closeComment cs).map (· + 2)).getD 0
  | _ => 0

def backslash : List Char → Nat
  | '\\' :: _ => 1
  | _ => 0

def isWhitespace (c : Char) : Bool :=
  c == ' ' || c == '\t' || c == '\r'

def whitespace (cs : List Char) : Nat :=
  (cs.takeWhile isWhitespace).length

/-- The longest name at the start of the text. -/
def nameAt : List Char → List Char
  | [] => []
  | c :: cs => if isNameStart c then c :: cs.takeWhile isNameChar else []

/-- A name, provided that no further word character follows. -/
def ident (cs : List Char) : Nat :=
  let name := nameAt cs
  if endsWord (cs.drop name.length) then name.length else 0

/-- A name that is one of `words`. -/
def reserved (words : List String) (cs : List Char) : Nat :=
  if String.ofList (nameAt cs) ∈ words then ident cs else 0

/-- The digits after a point, if there are any. -/
def fractionAt : List Char → List Char
  | '.' :: cs => cs.takeWhile isAsciiDigit
  | _ => []

/-- Digits, with a fraction if that ends where a word may end, and otherwise without. -/
def number (cs : List Char) : Nat :=
  let whole := cs.takeWhile isAsciiDigit
  let rest := cs.drop whole.length
  let fraction := fractionAt rest
  if whole.isEmpty then 0
  else if !fraction.isEmpty && endsWord (rest.drop (1 + fraction.length)) then
    whole.length + 1 + fraction.length
  else if endsWord rest then whole.length
  else 0

/-- The distance to the first double quote that no backslash takes with it. -/
def closingQuote : List Char → Option Nat
  | [] => none
  | '\\' :: _ :: cs => (closingQuote cs).map (· + 2)
  | c :: cs => if c = '"' then some 0 else (closingQuote cs).map (· + 1)

/-- The distance to the last double quote. -/
def lastQuote : List Char → Option Nat
  | [] => none
  | c :: cs =>
    match lastQuote cs with
    | some n => some (n + 1)
    | none => if c = '"' then some 0 else none

/-- The distance to the next single quote. -/
def singleQuote : List Char → Option Nat
  | [] => none
  | c :: cs => if c = '\x27' then some 0 else (singleQuote cs).map (· + 1)

/-- A double-quoted string ends at a quote that is not escaped. If there is none it is taken up to
the last quote there is, and its content then ends in an escape that is cut short. -/
def string : List Char → Nat
  | '"' :: cs => (((closingQuote cs).or (lastQuote cs)).map (· + 2)).getD 0
  | '\x27' :: cs => ((singleQuote cs).map (· + 2)).getD 0
  | _ => 0

def newline : List Char → Nat
  | '\n' :: _ => 1
  | _ => 0

/-- Operators of two characters. -/
def pairOperators : List (Char × Char) :=
  [('-', '>'), ('%', '='), ('>', '='), ('<', '='), ('^', '='), ('&', '&'), ('|', '|'), ('=', '='),
    ('!', '='), ('+', '='), ('-', '='), ('*', '='), ('/', '=')]

def isOperatorChar (c : Char) : Bool :=
  "-=+*/<>%^!".toList.contains c

/-- Two characters are taken where they form an operator, otherwise one. -/
def operator : List Char → Nat
  | c :: d :: _ =>
    if pairOperators.contains (c, d) then 2 else if isOperatorChar c then 1 else 0
  | [c] => if isOperatorChar c then 1 else 0
  | [] => 0

def isPunct (c : Char) : Bool :=
  "[]`~()@#$\x7b\x7d:;?.,".toList.contains c

def punct : List Char → Nat
  | c :: _ => if isPunct c then 1 else 0
  | [] => 0

/-- The rules in order of priority. -/
def rules : List (TokenKind × (List Char → Nat)) :=
  [(.comment, comment), (.backslash, backslash), (.whitespace, whitespace),
    (.modifier, reserved modifierWords), (.keyword, reserved keywordWords), (.ident, ident),
    (.number, number), (.string, string), (.newline, newline), (.operator, operator),
    (.punct, punct)]

/-- The kind of the token at the start of `cs`, and how many characters it has beyond the first. -/
def classify (cs : List Char) : Option (TokenKind × Nat) :=
  rules.findSome? fun (kind, rule) =>
    match rule cs with
    | 0 => none
    | extra + 1 => some (kind, extra)

end Syntree.Lexical
