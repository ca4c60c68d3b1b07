/-! # Line ends

Files may end their lines by a line feed, a carriage return or both in that order; a program that
was read from a file has line feeds only. -/

namespace LoxLang
namespace Text

/-- Turns each pair of carriage return and line feed, and each other carriage return, into one
line feed. -/
def unifyNewlines : List Char → List Char
  | '\r' :: '\n' :: rest => '\n' :: unifyNewlines rest
  | '\r' :: rest => '\n' :: unifyNewlines rest
  | c :: rest => c :: unifyNewlines rest
  | [] => []

end Text
end LoxLang
