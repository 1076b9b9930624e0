import Syntree.Position
import Syntree.Text.Quoted

/-!
Tokens: a kind, a value, and the span of source they were read from.
-/

namespace Syntree

inductive TokenKind where
  | eof
  | comment
  | backslash
  | whitespace
  | newline
  | modifier
  | keyword
  | ident
  | number
  | string
  | operator
  | punct
deriving DecidableEq, Repr

namespace TokenKind

def all : List TokenKind :=
  [eof, comment, backslash, whitespace, newline, modifier, keyword, ident, number, string,
    operator, punct]

def name : TokenKind → String
  | eof => "EOF"
  | comment => "Comment"
  | backslash => "Backslash"
  | whitespace => "Whitespace"
  | newline => "Newline"
  | modifier => "Modifier"
  | keyword => "Keyword"
  | ident => "Ident"
  | number => "Number"
  | string => "String"
  | operator => "Operator"
  | punct => "Punct"

def ofName? (name : String) : Option TokenKind :=
  all.find? (·.name == name)

/-- Layout separates tokens and is never seen by the grammar. -/
def isLayout : TokenKind → Bool
  | comment | backslash | whitespace | newline => true
  | _ => false

end TokenKind

/-- Words that are modifiers wherever they stand. -/
def modifierWords : List String := ["pub", "override", "static"]

/-- Words that cannot be used as names. -/
def keywordWords : List String :=
  ["in", "switch", "case", "default", "if", "enum", "alias", "let", "fn", "break", "continue",
    "for", "throws", "import", "new"]

/-- What the grammar sees of a token. The value of a string is its content. -/
structure Lexeme where
  kind : TokenKind
  value : String
deriving DecidableEq, Repr

namespace Lexeme

def eof : Lexeme := ⟨.eof, ""⟩

/-- Whether the token is written as `text`. The content of a string is no spelling. -/
def spells (l : Lexeme) (text : String) : Bool :=
  l.kind != .string && l.kind != .eof && l.value == text

def shown (l : Lexeme) : String :=
  match l.kind with
  | .eof => "EOF"
  | .string => "String(" ++ Text.quoted l.value ++ ")"
  | kind => kind.name ++ "(" ++ l.value ++ ")"

/-- How an error names the token. -/
def found (l : Lexeme) : String :=
  if l.kind = .eof then "EOF" else l.value

end Lexeme

structure Token extends Lexeme where
  span : Span
deriving DecidableEq, Repr

end Syntree
