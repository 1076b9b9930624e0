/-!
Places in a source text.

Reading counts bytes, lines and characters without bound in a `Place`; a `Position` is what tokens,
trees and errors carry: the name of the source and the three counts as 32-bit words.
-/

namespace Syntree

/-- The name of a source that was given none. -/
def defaultFile : String := "<input>"

/-- How far reading has come: the bytes passed, and line and column from 1, the column in
characters. -/
structure Place where
  offset : Nat
  line : Nat
  column : Nat
deriving DecidableEq, Repr

namespace Place

def start : Place := ⟨0, 1, 1⟩

/-- Only a newline starts a line. -/
def next (p : Place) (c : Char) : Place :=
  if c = '\n' then ⟨p.offset + c.utf8Size, p.line + 1, 1⟩
  else ⟨p.offset + c.utf8Size, p.line, p.column + 1⟩

def after (p : Place) (text : List Char) : Place :=
  text.foldl next p

end Place

structure Position where
  file : String
  offset : UInt32
  line : UInt32
  column : UInt32
deriving DecidableEq, Repr

namespace Position

def startOf (file : String) : Position := ⟨file, 0, 1, 1⟩

def ofPlace (file : String) (p : Place) : Position :=
  ⟨file, p.offset.toUInt32, p.line.toUInt32, p.column.toUInt32⟩

/-- The form `file:line:column`. -/
def shown (p : Position) : String :=
  p.file ++ ":" ++ toString p.line.toNat ++ ":" ++ toString p.column.toNat

end Position

structure Span where
  start : Position
  stop : Position
deriving DecidableEq, Repr

end Syntree
