import Syntree.Decimal.Binary64
import Syntree.Text.Word

/-!
Decimal numerals, and the numbers that they are read as.
-/

namespace Syntree.Decimal

open Text (isAsciiDigit)

/-- `digits * 10 ^ exponent`. -/
structure Numeral where
  digits : Nat
  exponent : Int
deriving DecidableEq, Repr

/-- The ratio `num / den` divided by `10 ^ exponent`. -/
def overPower (num den : Nat) (exponent : Int) : Nat × Nat :=
  if 0 ≤ exponent then (num, den * Nat.pow 10 exponent.toNat)
  else (num * Nat.pow 10 (-exponent).toNat, den)

def readDigits (cs : List Char) : Nat :=
  cs.foldl (fun n c => n * 10 + (c.toNat - 48)) 0

/-- The number that a text writes in digits, of which there must be some. -/
def digits? (cs : List Char) : Option Nat :=
  if cs.isEmpty || !cs.all isAsciiDigit then none else some (readDigits cs)

def exponent? : List Char → Option Int
  | [] => some 0
  | mark :: rest =>
    if mark = 'e' ∨ mark = 'E' then
      match rest with
      | '-' :: ds => (digits? ds).map Int.negOfNat
      | '+' :: ds => (digits? ds).map Int.ofNat
      | ds => (digits? ds).map Int.ofNat
    else none

def unsigned : List Char → List Char
  | '+' :: rest => rest
  | text => text

/-- The digits behind a point, if one stands here, and what follows. -/
def splitFraction : List Char → List Char × List Char
  | '.' :: rest => (rest.takeWhile isAsciiDigit, rest.dropWhile isAsciiDigit)
  | rest => ([], rest)

namespace Numeral

/-- Digits with at most one point among them, and an exponent behind them. Names such as `inf` are
no numerals, nor is anything negative. -/
def ofText? (text : List Char) : Option Numeral :=
  let whole := (unsigned text).takeWhile isAsciiDigit
  let (fraction, rest) := splitFraction ((unsigned text).dropWhile isAsciiDigit)
  if whole.isEmpty && fraction.isEmpty then none
  else (exponent? rest).map fun e => ⟨readDigits (whole ++ fraction), e - fraction.length⟩

def toBinary64? (n : Numeral) : Option Binary64 :=
  let (num, den) := overPower n.digits 1 (-n.exponent)
  Binary64.ofRatio? num den

end Numeral

/-- The number that a text is read as, unless the text is no numeral or out of range. -/
def Binary64.ofText? (text : List Char) : Option Binary64 :=
  (Numeral.ofText? text).bind (·.toBinary64?)

end Syntree.Decimal
