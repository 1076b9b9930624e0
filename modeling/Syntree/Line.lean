/-!
Finding the line of a source text that holds a byte.
-/

namespace Syntree

/-- A line with its number, its text including the newline that ends it, and an offset in bytes
from its start. -/
structure Line where
  number : Nat
  text : List Char
  offset : Nat
deriving DecidableEq, Repr

namespace Line

def byteSize : List Char → Nat
  | [] => 0
  | c :: cs => c.utf8Size + byteSize cs

/-- Cuts after every newline. The last piece, possibly empty, is what no newline ends. -/
def pieces : List Char → List (List Char)
  | [] => [[]]
  | c :: cs =>
    if c = '\n' then [c] :: pieces cs
    else match pieces cs with
      | [] => [[c]]
      | piece :: rest => (c :: piece) :: rest

/-- The piece holding the byte at `offset`; the end of the input belongs to the last piece. -/
def locate (number offset : Nat) : List (List Char) → Option Line
  | [] => none
  | [piece] => if offset ≤ byteSize piece then some ⟨number, piece, offset⟩ else none
  | piece :: rest =>
    if offset < byteSize piece then some ⟨number, piece, offset⟩
    else locate (number + 1) (offset - byteSize piece) rest

def at? (source : List Char) (offset : Nat) : Option Line :=
  locate 1 offset (pieces source)

/-- The number of characters in the first `bytes` bytes, unless those end inside a character. -/
def charsWithin? : Nat → List Char → Option Nat
  | 0, _ => some 0
  | _, [] => some 0
  | bytes, c :: cs =>
    if c.utf8Size ≤ bytes then (charsWithin? (bytes - c.utf8Size) cs).map (· + 1) else none

def column? (l : Line) : Option Nat :=
  charsWithin? l.offset l.text

def indent (l : Line) : Nat :=
  (l.text.takeWhile (· == ' ')).length

end Line

end Syntree
