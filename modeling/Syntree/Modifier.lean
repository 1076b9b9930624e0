import Syntree.Token

/-!
Modifiers of declarations.
-/

namespace Syntree

inductive Modifier where
  | pub | override | static
deriving DecidableEq, Repr

namespace Modifier

def name : Modifier → String
  | pub => "Pub"
  | override => "Override"
  | static => "Static"

def spelling : Modifier → String
  | pub => "pub"
  | override => "override"
  | static => "static"

def ofSpelling? (text : String) : Option Modifier :=
  [pub, override, static].find? (·.spelling == text)

/-- The modifiers among some words, in order and with repetitions. -/
def among (words : List String) : List Modifier :=
  words.filterMap ofSpelling?

end Modifier

end Syntree
