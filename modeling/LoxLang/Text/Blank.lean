import LoxLang.Text.Ranges

/-! # Blanks

The white space that is stripped from the ends of a text: line breaks, tabs, separators and the
spaces of every width, but not the zero-width ones. -/

namespace LoxLang
namespace Text

def blankRanges : List (Nat × Nat) :=
  [(0x09, 0x0D), (0x1C, 0x20), (0x85, 0x85), (0xA0, 0xA0), (0x1680, 0x1680), (0x2000, 0x200A),
   (0x2028, 0x2029), (0x202F, 0x202F), (0x205F, 0x205F), (0x3000, 0x3000)]

/-- A character that stripping removes. -/
def isBlank (c : Char) : Bool := inRanges blankRanges c

def stripLeft (cs : List Char) : List Char := cs.dropWhile isBlank

def stripRight (cs : List Char) : List Char := (stripLeft cs.reverse).reverse

def strip (cs : List Char) : List Char := stripRight (stripLeft cs)

end Text
end LoxLang
