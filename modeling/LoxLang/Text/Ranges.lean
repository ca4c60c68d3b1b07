/-! # Tables of character ranges -/

namespace LoxLang
namespace Text

/-- Whether the code point of `c` lies in one of the ranges, both ends included. -/
def inRanges (ranges : List (Nat × Nat)) (c : Char) : Bool :=
  ranges.any fun (low, high) => low ≤ c.toNat && c.toNat ≤ high

end Text
end LoxLang
