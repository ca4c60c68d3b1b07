import LoxLang.Text.Printable

/-! # Quoted text

A text between quotes, on one line, with escapes for what cannot stand for itself. Single quotes
are preferred; double quotes are used when that avoids an escape. -/

namespace LoxLang
namespace Text

/-- The hexadecimal digits of `n`, padded with zeros to at least `width`. -/
def hex (width n : Nat) : List Char :=
  let digits := Nat.toDigits 16 n
  List.replicate (width - digits.length) '0' ++ digits

/-- How one character is written between the given quotes. -/
def escape (mark c : Char) : List Char :=
  if c = mark || c = '\\' then ['\\', c]
  else if c = '\n' then ['\\', 'n']
  else if c = '\r' then ['\\', 'r']
  else if c = '\t' then ['\\', 't']
  else if isPrintable c then [c]
  else if c.toNat < 0x100 then ['\\', 'x'] ++ hex 2 c.toNat
  else if c.toNat < 0x10000 then ['\\', 'u'] ++ hex 4 c.toNat
  else ['\\', 'U'] ++ hex 8 c.toNat

/-- The quotes that go around a text: double ones only if it holds a single quote and no double
one. -/
def quoteMark (s : String) : Char :=
  if s.toList.contains '\'' && !s.toList.contains '"' then '"' else '\''

def quoted (s : String) : String :=
  let mark := quoteMark s
  String.ofList (mark :: s.toList.flatMap (escape mark) ++ [mark])

end Text
end LoxLang
