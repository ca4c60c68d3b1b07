import LoxLang.Number.Shortest
import LoxLang.Text.Integer

/-! # Numbers

Numbers are doubles. They have two written forms: the *text*, which is the shortest decimal number
that reads back and always shows that it is no integer constant, and the *display*, which shows an
integral number by its exact integer digits and every other number by its text. -/

namespace LoxLang

/-- A number of the language. -/
abbrev Number := Float

namespace Number

/-- The sign in front of a written number. -/
def signText : Float.Model.UnpackedFloat.Sign → String
  | .positive => ""
  | .negative => "-"

/-- The shortest text that reads back as the number. -/
def text (x : Number) : String :=
  match x.toModel.unpack with
  | .notANumber => "nan"
  | .infinity s => signText s ++ "inf"
  | .zero s => signText s ++ "0.0"
  | .finite s m e _ => signText s ++ String.ofList (Span.ofBinary m e).shortest.text

/-- The magnitude `m * 2 ^ e`, if it is integral. -/
def magnitude? (m : Nat) (e : Int) : Option Nat :=
  if 0 ≤ e then some (m * Nat.pow 2 e.toNat)
  else if m % Nat.pow 2 e.natAbs = 0 then some (m / Nat.pow 2 e.natAbs)
  else none

/-- The integer that the number is, if it is one. Both zeros are the integer zero. -/
def toInt? (x : Number) : Option Int :=
  match x.toModel.unpack with
  | .notANumber | .infinity _ => none
  | .zero _ => some 0
  | .finite .positive m e _ => (magnitude? m e).map Int.ofNat
  | .finite .negative m e _ => (magnitude? m e).map fun n => -Int.ofNat n

/-- The form in which a program shows the number. -/
def display (x : Number) : String :=
  match toInt? x with
  | some i => Text.integer i
  | none => text x

/-- The value of a row of decimal digits. -/
def digitsValue (digits : List Char) : Nat :=
  digits.foldl (fun n c => 10 * n + (c.toNat - '0'.toNat)) 0

/-- The double nearest to `m * 10 ^ e`. -/
def scaled (m : Nat) (e : Int) : Number :=
  if 0 ≤ e then Float.ofScientific m false e.toNat else Float.ofScientific m true e.natAbs

/-- The double nearest to the decimal number with these digits before and behind the point. -/
def ofDigits (whole fraction : List Char) : Number :=
  scaled (digitsValue (whole ++ fraction)) (-(fraction.length : Int))

end Number
end LoxLang
