import Syntree.Decimal.Numeral

/-!
The text of a number: the fewest digits that read back as the same number, and among those the ones
nearest to it, a tie going up.
-/

namespace Syntree.Decimal

-- the exponent of the first digit of a positive number
def leadingExponent (x : Binary64) : Int :=
  let whole := x.units / Binary64.unitsPerOne
  if 0 < whole then ((Nat.toDigits 10 whole).length : Int) - 1
  else
    let inverse := (Binary64.unitsPerOne + x.units - 1) / x.units
    Int.negOfNat (Nat.toDigits 10 (inverse - 1)).length

/-- The better of the two neighbours of `x` with `count` digits, if one of them reads back as
`x`. -/
def withDigits (x : Binary64) (count : Nat) : Option Numeral :=
  let exponent := leadingExponent x - count + 1
  let (num, den) := overPower x.units Binary64.unitsPerOne exponent
  let below : Numeral := ⟨num / den, exponent⟩
  let above : Numeral := ⟨num / den + 1, exponent⟩
  let candidates := if den ≤ 2 * (num % den) then [above, below] else [below, above]
  candidates.find? (·.toBinary64? == some x)

/-- Seventeen digits always suffice. -/
def shortest (x : Binary64) : Numeral :=
  ((List.range 17).findSome? fun n => withDigits x (n + 1)).getD ⟨0, 0⟩

def trimZeros (digits : List Char) : List Char :=
  (digits.reverse.dropWhile (· == '0')).reverse

/-- The exponents of a first digit between which a number is written positionally. -/
structure Format where
  least : Int
  greatest : Int

/-- Numbers from a ten-thousandth up to `10 ^ 16` are positional, and show at least one place. -/
def Format.outline : Format := ⟨-4, 15⟩

/-- Puts the point after the first `whole` digits, filling up with zeros on either side. -/
def positional (digits : List Char) (whole : Int) : List Char :=
  if whole ≤ 0 then "0.".toList ++ List.replicate (-whole).toNat '0' ++ digits
  else
    let fraction := digits.drop whole.toNat
    digits.take whole.toNat ++ List.replicate (whole.toNat - digits.length) '0' ++ '.' ::
      (if fraction.isEmpty then ['0'] else fraction)

def exponential (digits : List Char) (exponent : Int) : List Char :=
  let fraction := digits.drop 1
  digits.take 1 ++ (if fraction.isEmpty then [] else '.' :: fraction) ++
    'e' :: (toString exponent).toList

def Binary64.text (format : Format) (x : Binary64) : String :=
  if x.significand = 0 then "0.0"
  else
    let s := shortest x
    let all := Nat.toDigits 10 s.digits
    let lead := (all.length : Int) + s.exponent - 1
    let digits := trimZeros all
    String.ofList <|
      if format.least ≤ lead ∧ lead ≤ format.greatest then positional digits (lead + 1)
      else exponential digits lead

end Syntree.Decimal
