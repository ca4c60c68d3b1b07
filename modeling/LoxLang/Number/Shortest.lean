import LoxLang.Number.Decimal

/-! # The shortest decimal number that reads back

The positive double `m * 2 ^ e` is what reading gives for every real number in a span around it.
Of the decimal numbers in the span, those with the fewest digits are wanted, and of these the
nearest to the double; of two that are equally near, the one whose last digit is even.

Everything is computed on a grid of the reals on which the double, both ends of its span and so
all candidates are natural numbers. The search tries coarser grids first and always ends, because
the double itself is on the finest one. -/

namespace LoxLang

/-- The real numbers that read as one double, in units of `10 ^ exponent`. -/
structure Span where
  low : Nat
  value : Nat
  high : Nat
  exponent : Int
  /-- Whether the ends themselves read as the double: a tie goes to the even significand. -/
  closed : Bool

namespace Span

/-- The span of the double `m * 2 ^ e`. Its neighbours are one unit in the last place away, except
that below a power of two the next double is only half as far. -/
def ofBinary (m : Nat) (e : Int) : Span :=
  let scale := if 2 ≤ e then Nat.pow 2 (e - 2).toNat else Nat.pow 5 (2 - e).toNat
  let below := if m = Nat.pow 2 52 ∧ -1074 < e then 1 else 2
  { low := (4 * m - below) * scale
    value := 4 * m * scale
    high := (4 * m + 2) * scale
    exponent := if 2 ≤ e then 0 else e - 2
    closed := m % 2 == 0 }

/-- Whether a number reads as the double. -/
def contains (s : Span) (n : Nat) : Bool :=
  if s.closed then decide (s.low ≤ n ∧ n ≤ s.high) else decide (s.low < n ∧ n < s.high)

/-- The multiple of `grid` in the span that is nearest to the double, divided by `grid`; only the
two multiples around the double can be it. -/
def nearest? (s : Span) (grid : Nat) : Option Nat :=
  let q := s.value / grid
  match s.contains (q * grid), s.contains ((q + 1) * grid) with
  | true, true =>
    let down := s.value - q * grid
    let up := (q + 1) * grid - s.value
    if down < up ∨ (down = up ∧ q % 2 = 0) then some q else some (q + 1)
  | true, false => some q
  | false, true => some (q + 1)
  | false, false => none

/-- The first hit on the grids `10 ^ j`, `10 ^ (j - 1)`, ..., `1`. -/
def search (s : Span) : Nat → Decimal
  | 0 => ⟨s.value, s.exponent⟩
  | j + 1 =>
    match s.nearest? (Nat.pow 10 (j + 1)) with
    | some q => ⟨q, s.exponent + (j + 1 : Nat)⟩
    | none => s.search j

/-- The decimal number with the fewest digits in the span. -/
def shortest (s : Span) : Decimal :=
  s.search ((Nat.toDigits 10 s.value).length - 1)

end Span
end LoxLang
