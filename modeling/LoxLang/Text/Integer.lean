/-! # Written integers -/

namespace LoxLang
namespace Text

def natural (n : Nat) : String := String.ofList (Nat.toDigits 10 n)

/-- The decimal digits of an integer, with a sign only if it is negative. -/
def integer (i : Int) : String :=
  if i < 0 then "-" ++ natural i.natAbs else natural i.natAbs

end Text
end LoxLang
