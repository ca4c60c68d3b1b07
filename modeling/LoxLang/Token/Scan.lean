import LoxLang.Segment

/-! # Scanning

The tokens of a source text are its token segments in order, each with the line it starts on,
followed by one end mark. The segments that are wrong give errors; scanning never stops at one. -/

namespace LoxLang

/-- What can be wrong with a source text before it is parsed. -/
inductive LexCause where
  | unexpectedCharacter
  | unterminatedString
  | unterminatedComment
  deriving DecidableEq

def LexCause.message : LexCause → String
  | .unexpectedCharacter => "Unexpected character."
  | .unterminatedString => "Unterminated string."
  | .unterminatedComment => "Unterminated block comment."

/-- An error in a source text; only its line is known. -/
structure LexError where
  cause : LexCause
  line : Int
  deriving DecidableEq

namespace Segment

/-- What is wrong with a segment of the given class. -/
def cause? : SegmentClass → Option LexCause
  | .unexpected => some .unexpectedCharacter
  | .openString => some .unterminatedString
  | .openComment => some .unterminatedComment
  | _ => none

/-- The error of a segment that starts on the given line, placed on the line it ends on. -/
def error? (line : Int) (s : Segment) : Option LexError :=
  (cause? s.cls).map fun cause => ⟨cause, line + s.newlines⟩

/-- The tokens of the segments, the first of which starts on the given line, and the end mark. -/
def tokens (line : Int) : List Segment → List Token
  | [] => [Token.endAt line]
  | s :: rest => (s.token? line).toList ++ tokens (line + s.newlines) rest

/-- The errors of the segments, the first of which starts on the given line. -/
def errors (line : Int) : List Segment → List LexError
  | [] => []
  | s :: rest => (s.error? line).toList ++ errors (line + s.newlines) rest

end Segment

/-- The tokens of a source text, and what is wrong with it. -/
structure Scanned where
  tokens : List Token
  errors : List LexError
  deriving DecidableEq

/-- Scans a source text. Its first line is line 1. -/
def scan (source : String) : Scanned :=
  let segments := Segment.split source.toList
  ⟨Segment.tokens 1 segments, Segment.errors 1 segments⟩

end LoxLang
