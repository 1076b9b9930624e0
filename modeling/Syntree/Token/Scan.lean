import Syntree.Token.Rule
import Syntree.Text.Escape
import Syntree.Error

/-!
Cutting a source into tokens.

A source is first cut into pieces of text without regard to where they stand; positions are then
counted along the pieces. So the pieces of a text do not depend on what comes before it.
-/

namespace Syntree

/-- A token with the text it was read from, not yet placed in a source. -/
structure Piece extends Lexeme where
  text : List Char
deriving DecidableEq, Repr

namespace Lexical

/-- The value of a token with the given text: the content of a string, with its escapes resolved if
it is double-quoted, and the text itself otherwise. -/
def valueOf (kind : TokenKind) (text : List Char) : Except Cause String :=
  if kind = .string then
    let content := (text.drop 1).dropLast
    if text.head? = some '"' then
      match Text.unescape content with
      | .ok value => .ok (String.ofList value)
      | .error sequence => .error (.invalidEscape (String.ofList sequence))
    else .ok (String.ofList content)
  else .ok (String.ofList text)

/-- Why no rule matches a text that starts with `c`. -/
def unmatched (c : Char) : Cause :=
  if c = '"' ∨ c = '\x27' then .unterminatedString else .unrecognisedToken c.toString

/-- The pieces of a text up to the first fault, and that fault. -/
def pieces (cs : List Char) : List Piece × Option Cause :=
  match cs with
  | [] => ([], none)
  | c :: rest =>
    match classify (c :: rest) with
    | none => ([], some (unmatched c))
    | some (kind, extra) =>
      let text := c :: rest.take extra
      match valueOf kind text with
      | .error cause => ([], some cause)
      | .ok value =>
        let (others, fault) := pieces (rest.drop extra)
        (⟨⟨kind, value⟩, text⟩ :: others, fault)
termination_by cs.length
decreasing_by simp only [List.length_cons, List.length_drop]; omega

/-- The end of the last piece, counted from `p`. -/
def endOf (p : Place) (ps : List Piece) : Place :=
  ps.foldl (fun p piece => p.after piece.text) p

/-- Gives each piece its span, starting at `p`. -/
def placed (file : String) (p : Place) : List Piece → List Token
  | [] => []
  | piece :: ps =>
    let stop := p.after piece.text
    ⟨piece.toLexeme, ⟨.ofPlace file p, .ofPlace file stop⟩⟩ :: placed file stop ps

def eofAt (position : Position) : Token :=
  ⟨Lexeme.eof, ⟨position, position⟩⟩

/-- The tokens of a text that starts at `p`, closed by an end-of-input token. -/
def tokensFrom (file : String) (p : Place) (cs : List Char) : Except Error (List Token) :=
  let (ps, fault) := pieces cs
  let stop := Position.ofPlace file (endOf p ps)
  match fault with
  | some cause => .error ⟨cause, stop⟩
  | none => .ok (placed file p ps ++ [eofAt stop])

end Lexical

/-- All tokens of a source, layout included. -/
def scan (file source : String) : Except Error (List Token) :=
  Lexical.tokensFrom file .start source.toList

/-- The tokens of a source that the grammar sees. -/
def tokenize (file source : String) : Except Error (List Token) :=
  (scan file source).map fun tokens => tokens.filter fun t => !t.kind.isLayout

end Syntree
