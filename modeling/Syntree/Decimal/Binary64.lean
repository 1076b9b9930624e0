/-!
Finite binary floating-point numbers of 64 bits, without a sign, and the nearest one to a ratio.

All arithmetic is on natural numbers: the number with significand `m` and exponent `e` is
`m * 2 ^ e` in units of `2 ^ -1074`, the smallest positive one.
-/

namespace Syntree.Decimal

/-- Each number in one way: the leading bit of its significand is set wherever the exponent could be
smaller otherwise. -/
structure Binary64 where
  significand : Nat
  exponent : Nat
  significand_lt : significand < Nat.pow 2 53
  exponent_le : exponent ≤ 2045
  normal : exponent = 0 ∨ Nat.pow 2 52 ≤ significand
deriving DecidableEq, Repr

namespace Binary64

def ofParts? (significand exponent : Nat) : Option Binary64 :=
  if h : significand < Nat.pow 2 53 ∧ exponent ≤ 2045 ∧
      (exponent = 0 ∨ Nat.pow 2 52 ≤ significand) then
    some ⟨significand, exponent, h.1, h.2.1, h.2.2⟩
  else none

def units (x : Binary64) : Nat := x.significand * Nat.pow 2 x.exponent

def unitsPerOne : Nat := Nat.pow 2 1074

/-- The interchange format: the leading bit of the significand carries into the exponent field. -/
def bits (x : Binary64) : Nat := x.exponent * Nat.pow 2 52 + x.significand

end Binary64

/-- The quotient to the nearest integer, a tie to the even one. -/
def roundDiv (num den : Nat) : Nat :=
  let quotient := num / den
  let rest := num % den
  if den < 2 * rest ∨ (2 * rest = den ∧ quotient % 2 = 1) then quotient + 1 else quotient

/-- The number nearest to `num / den`, or nothing when that is past the largest finite one. A
significand that was rounded up to `2 ^ 53` counts into the exponent. -/
def Binary64.ofRatio? (num den : Nat) : Option Binary64 :=
  let scaled := num * unitsPerOne
  let exponent := (scaled / den).log2 - 52
  let significand := roundDiv scaled (den * Nat.pow 2 exponent)
  if significand = Nat.pow 2 53 then ofParts? (Nat.pow 2 52) (exponent + 1)
  else ofParts? significand exponent

end Syntree.Decimal
