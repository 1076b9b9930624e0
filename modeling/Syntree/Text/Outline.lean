/-!
Nested text laid out over lines, four columns to a level.
-/

namespace Syntree.Text

inductive Outline where
  | leaf (text : String)
  /-- A value with a label before it on the same line. -/
  | labelled (label : String) (value : Outline)
  /-- Items between an opening and a closing text, each on lines of its own. -/
  | group (opening : String) (items : List Outline) (closing : String)

namespace Outline

mutual

/-- Writes an outline after the text `out`. -/
def renderAfter (out indent : String) : Outline → String
  | leaf text => out ++ text
  | labelled label value => value.renderAfter (out ++ label ++ ": ") indent
  | group opening items closing =>
    renderItemsAfter (out ++ opening ++ "\n") (indent ++ "    ") items ++ indent ++ closing

def renderItemsAfter (out indent : String) : List Outline → String
  | [] => out
  | item :: items =>
    renderItemsAfter (item.renderAfter (out ++ indent) indent ++ ",\n") indent items

end

def render (o : Outline) : String :=
  o.renderAfter "" ""

def record (name : String) (fields : List (String × Outline)) : Outline :=
  group (name ++ " \x7b") (fields.map fun (label, value) => labelled label value) "\x7d"

/-- A name and the one thing it holds. -/
def wrapped (name : String) (value : Outline) : Outline :=
  group (name ++ "(") [value] ")"

def list : List Outline → Outline
  | [] => leaf "[]"
  | items => group "[" items "]"

def option : Option Outline → Outline
  | none => leaf "None"
  | some value => wrapped "Some" value

end Outline

end Syntree.Text
