import Syntree.Position
import Syntree.Text.Quoted

/-!
What can go wrong between a source and its tree, and how it is worded.
-/

namespace Syntree

open Text (quoted)

inductive Cause where
  /-- No lexical rule matches at this text. -/
  | unrecognisedToken (text : String)
  | unterminatedString
  /-- A backslash sequence that spells no character. -/
  | invalidEscape (sequence : String)
  /-- A token stands where the grammar has no place for it. -/
  | unexpectedToken (expected : List String) (found : String)
  /-- A number past the largest finite one. -/
  | numberOutOfRange (text : String)
  | nestingTooDeep (limit : Nat)
  /-- The source could not be read at all. -/
  | unreadable (reason : String)
deriving DecidableEq, Repr

/-- The stage of reading at which an error arises. -/
inductive Stage where
  | lex | parse | io
deriving DecidableEq, Repr

def Stage.name : Stage → String
  | .lex => "Lex"
  | .parse => "Parse"
  | .io => "Io"

namespace Cause

def name : Cause → String
  | unrecognisedToken _ => "UnrecognisedToken"
  | unterminatedString => "UnterminatedString"
  | invalidEscape _ => "InvalidEscape"
  | unexpectedToken _ _ => "UnexpectedToken"
  | numberOutOfRange _ => "NumberParseError"
  | nestingTooDeep _ => "NestingTooDeep"
  | unreadable _ => "Io"

def stage : Cause → Stage
  | unrecognisedToken _ | unterminatedString | invalidEscape _ => .lex
  | unexpectedToken _ _ | numberOutOfRange _ | nestingTooDeep _ => .parse
  | unreadable _ => .io

/-- Only after a token mismatch may another alternative be tried. -/
def recoverable : Cause → Bool
  | unexpectedToken _ _ => true
  | _ => false

/-- What could have stood in place of the token found. -/
def expected : Cause → List String
  | unexpectedToken expected _ => expected
  | _ => []

def message : Cause → String
  | unrecognisedToken text => "unrecognised token: " ++ quoted text
  | unterminatedString => "unterminated string literal"
  | invalidEscape sequence => "invalid escape sequence: " ++ quoted sequence
  | unexpectedToken expected found =>
    "unexpected token " ++ quoted found ++
      " (expected " ++ String.intercalate " or " expected ++ ")"
  | numberOutOfRange text => "error parsing number: " ++ quoted text
  | nestingTooDeep limit => "nesting exceeds " ++ toString limit ++ " levels"
  | unreadable reason => "failed to read source: " ++ reason

/-- Advice that a diagnostic shows beside the name of the error. -/
def tip : Cause → Option String
  | unrecognisedToken _ => none
  | unterminatedString => some "String literal is never closed, did you forget a quote?"
  | invalidEscape sequence =>
    some ("Unknown escape sequence `" ++ sequence ++ "` in string literal")
  | unexpectedToken [] found => some ("Unexpected token: `" ++ found ++ "`")
  | unexpectedToken [single] found =>
    some ("Unexpected token: `" ++ found ++ "`, expected " ++ single)
  | unexpectedToken expected found =>
    some ("Unexpected token: `" ++ found ++ "`, expected one of " ++
      String.intercalate ", " expected)
  | numberOutOfRange text =>
    some ("Invalid number: `" ++ text ++ "`, is it above the float limit?")
  | nestingTooDeep limit =>
    some ("Nesting is limited to " ++ toString limit ++ " levels, try splitting the expression")
  | unreadable _ => none

end Cause

structure Error where
  cause : Cause
  position : Position
deriving DecidableEq, Repr

def Error.message (e : Error) : String :=
  e.position.shown ++ ": " ++ e.cause.message

end Syntree
