import Syntree.Error
import Syntree.Line
import Syntree.Text.Blank

/-!
An error shown against its source: the line it points into, and a caret under the place.
-/

namespace Syntree

/-- `text` moved to the right end of a field of `width` characters filled with `fill`. -/
def Text.padLeft (fill : Char) (width : Nat) (text : String) : String :=
  String.ofList (List.replicate (width - text.length) fill) ++ text

def Text.padRight (width : Nat) (text : String) : String :=
  text ++ String.ofList (List.replicate (width - text.length) ' ')

namespace Error

open Text (padLeft trimEnd)

def heading (e : Error) : String :=
  let advice := match e.cause.tip with
    | none => ""
    | some tip => " (" ++ tip ++ ")"
  "Error: " ++ e.cause.name ++ advice ++ "\n-> " ++ e.position.file ++ "\n"

/-- The line without its indentation and trailing blanks, and below it a caret under the character
before which `column` characters stand. -/
def excerpt (line : Line) (column : Nat) : String :=
  let number := toString line.number
  let bar := padLeft ' ' (number.length + 2) "|"
  let shown := String.ofList (trimEnd (line.text.drop line.indent))
  bar ++ "\n" ++ number ++ " | " ++ shown ++ "\n" ++
    bar ++ " " ++ padLeft '-' (column - line.indent + 1) "^" ++ "\n"

/-- The full diagnostic. There is none when the error's offset falls inside a character; one past
the end of `source` is reported without a line. -/
def diagnostic? (e : Error) (source : String) : Option String :=
  match Line.at? source.toList e.position.offset.toNat with
  | none => some (e.heading ++ "   " ++ e.message ++ "\n")
  | some line => line.column?.map fun column => e.heading ++ excerpt line column

end Error

end Syntree
