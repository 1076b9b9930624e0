import Syntree.Token.Scan

/-!
Reading a source by hand: a place in it that can be moved, and tokens put there by the caller.
-/

namespace Syntree

structure Reader where
  file : String
  place : Place
  rest : List Char
  tokens : List Token

namespace Reader

def ofSource (file source : String) : Reader :=
  ⟨file, .start, source.toList, []⟩

def position (r : Reader) : Position :=
  .ofPlace r.file r.place

/-- Moves a place over the first `n` bytes of a text, unless those end inside a character or beyond
the end. -/
def skip? : Nat → Place → List Char → Option (Place × List Char)
  | 0, p, cs => some (p, cs)
  | _, _, [] => none
  | n, p, c :: cs => if c.utf8Size ≤ n then skip? (n - c.utf8Size) (p.next c) cs else none

def advance? (r : Reader) (n : Nat) : Option Reader :=
  (skip? n r.place r.rest).map fun (place, rest) => { r with place, rest }

/-- Adds an empty token at the current place. -/
def push (r : Reader) (l : Lexeme) : Reader :=
  { r with tokens := r.tokens ++ [⟨l, ⟨r.position, r.position⟩⟩] }

/-- The tokens added so far and those of the rest of the source. -/
def finish (r : Reader) : Except Error (List Token) :=
  (Lexical.tokensFrom r.file r.place r.rest).map (r.tokens ++ ·)

end Reader

end Syntree
