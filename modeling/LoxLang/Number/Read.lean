import LoxLang.Number.Basic

/-! # Reading numbers

Reads a number from a decimal text: digits with an optional point, an optional exponent and an
optional sign, or the name of a number that is not finite. -/

namespace LoxLang
namespace Number

/-- Splits an optional sign off. -/
def splitSign : List Char → Bool × List Char
  | '-' :: rest => (true, rest)
  | '+' :: rest => (false, rest)
  | rest => (false, rest)

/-- Reads the exponent behind a mantissa; there may be none. -/
def readExponent? : List Char → Option Int
  | [] => some 0
  | c :: rest =>
    let (negative, digits) := splitSign rest
    if (c = 'e' || c = 'E') && !digits.isEmpty && digits.all Char.isDigit then
      let n : Int := digitsValue digits
      some (if negative then -n else n)
    else none

/-- Reads a number without a sign. -/
def readMagnitude? (cs : List Char) : Option Number :=
  let whole := cs.takeWhile Char.isDigit
  let tail := cs.dropWhile Char.isDigit
  let (fraction, tail) :=
    match tail with
    | '.' :: rest => (rest.takeWhile Char.isDigit, rest.dropWhile Char.isDigit)
    | rest => ([], rest)
  if whole.isEmpty && fraction.isEmpty then none
  else (readExponent? tail).map fun e =>
    scaled (digitsValue (whole ++ fraction)) (e - fraction.length)

/-- Reads a number. -/
def read? (s : String) : Option Number :=
  let (negative, rest) := splitSign s.toList
  let magnitude? :=
    if rest = ['i', 'n', 'f'] then some (1 / 0)
    else if rest = ['n', 'a', 'n'] then some (0 / 0)
    else readMagnitude? rest
  magnitude?.map fun x => if negative then -x else x

end Number
end LoxLang
