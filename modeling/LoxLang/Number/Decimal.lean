/-! # Decimal numbers and their layout

A positive decimal number is a coefficient and a power of ten. It is written positionally while its
exponent is moderate, and with an exponent otherwise; zeros at the end of the coefficient do not
show, but a positional number always has a digit behind its point. -/

namespace LoxLang

/-- The number `coefficient * 10 ^ exponent`. -/
structure Decimal where
  coefficient : Nat
  exponent : Int
  deriving DecidableEq

namespace Decimal

/-- Where positional writing begins and ends, and how wide an exponent is at least. -/
structure Layout where
  /-- The least decimal exponent that is written positionally. -/
  least : Int
  /-- The first decimal exponent above it that is not. -/
  limit : Int
  /-- The least number of digits in an exponent. -/
  width : Nat

/-- The layout of numbers: positional from `1e-04` up to but not including `1e+16`, and exponents
of two digits or more. -/
def layout : Layout := ⟨-4, 16, 2⟩

/-- The digits without the zeros at their end. -/
def trimZeros (digits : List Char) : List Char :=
  (digits.reverse.dropWhile (· == '0')).reverse

/-- The digits with the point behind the first `point` of them, filled up with zeros. -/
def positional (digits : List Char) (point : Int) : List Char :=
  if point ≤ 0 then
    ['0', '.'] ++ List.replicate point.natAbs '0' ++ digits
  else
    let whole := point.toNat
    if digits.length ≤ whole then
      digits ++ List.replicate (whole - digits.length) '0' ++ ['.', '0']
    else
      digits.take whole ++ '.' :: digits.drop whole

/-- An exponent: its sign, and its digits padded with zeros. -/
def exponentText (width : Nat) (e : Int) : List Char :=
  let digits := Nat.toDigits 10 e.natAbs
  (if e < 0 then '-' else '+') :: List.replicate (width - digits.length) '0' ++ digits

/-- The digits with the point behind the first one, and an exponent. -/
def scientific (width : Nat) (digits : List Char) (e : Int) : List Char :=
  let mantissa :=
    match digits with
    | first :: second :: rest => first :: '.' :: second :: rest
    | short => short
  mantissa ++ 'e' :: exponentText width e

/-- The written form of a positive decimal number. -/
def text (d : Decimal) : List Char :=
  let all := Nat.toDigits 10 d.coefficient
  let digits := trimZeros all
  let exponent := d.exponent + all.length - 1
  if layout.least ≤ exponent ∧ exponent < layout.limit then positional digits (exponent + 1)
  else scientific layout.width digits exponent

end Decimal
end LoxLang
