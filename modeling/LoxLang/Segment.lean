import LoxLang.Text.Letter
import LoxLang.Token.Basic

/-! # Lexical segments

A source text is cut into segments from left to right: tokens, comments, single blanks and line
ends, and what is wrong with the text, namely characters that start nothing and strings or comments
that never end. Every segment is as long as its class allows, except that strings and block
comments end at their first closing mark. No character is lost: the segments of a text put
together give the text. -/

namespace LoxLang

inductive SegmentClass where
  | token (kind : Kind)
  | blank
  | newline
  | lineComment
  | blockComment
  | unexpected
  | openString
  | openComment
  deriving DecidableEq

/-- A stretch of source text with its class. -/
structure Segment where
  cls : SegmentClass
  text : List Char
  deriving DecidableEq

namespace Segment

/-- The tokens of one character that begin no longer token. -/
def single? : Char → Option Kind
  | '(' => some .leftParen
  | ')' => some .rightParen
  | '{' => some .leftBrace
  | '}' => some .rightBrace
  | ',' => some .comma
  | '.' => some .dot
  | '-' => some .minus
  | '+' => some .plus
  | ';' => some .semicolon
  | '*' => some .star
  | _ => none

/-- The operators that an equals sign may extend: the kind with it and the kind alone. -/
def extensible? : Char → Option (Kind × Kind)
  | '!' => some (.bangEqual, .bang)
  | '=' => some (.equalEqual, .equal)
  | '<' => some (.lessEqual, .less)
  | '>' => some (.greaterEqual, .greater)
  | _ => none

/-- A character between tokens that is no line end. -/
def isSpace (c : Char) : Bool := c == ' ' || c == '\r' || c == '\t'

/-- A character that starts a word. -/
def isWordStart (c : Char) : Bool := Text.isLetter c || c == '_'

/-- A character that continues a word. -/
def isWordPart (c : Char) : Bool := isWordStart c || c.isDigit

/-- Splits a text behind its first closing mark of a block comment. -/
def splitComment? : List Char → Option (List Char × List Char)
  | '*' :: '/' :: rest => some (['*', '/'], rest)
  | c :: rest => (splitComment? rest).map fun (body, rest) => (c :: body, rest)
  | [] => none

/-- The segment that begins with a slash, where `cs` follows it. -/
def afterSlash (cs : List Char) : Segment × List Char :=
  match cs with
  | '/' :: rest =>
    (⟨.lineComment, '/' :: '/' :: rest.takeWhile (· != '\n')⟩, rest.dropWhile (· != '\n'))
  | '*' :: rest =>
    match splitComment? rest with
    | some (body, rest) => (⟨.blockComment, '/' :: '*' :: body⟩, rest)
    | none => (⟨.openComment, '/' :: '*' :: rest⟩, [])
  | rest => (⟨.token .slash, ['/']⟩, rest)

/-- The segment that begins with a quote, where `cs` follows it. -/
def afterQuote (cs : List Char) : Segment × List Char :=
  let body := cs.takeWhile (· != '"')
  match cs.dropWhile (· != '"') with
  | [] => (⟨.openString, '"' :: body⟩, [])
  | close :: rest => (⟨.token .string, '"' :: body ++ [close]⟩, rest)

/-- The segment that begins with the digit `c`, where `cs` follows it. A point belongs to the
number only if a digit follows it. -/
def afterDigit (c : Char) (cs : List Char) : Segment × List Char :=
  let whole := c :: cs.takeWhile Char.isDigit
  match cs.dropWhile Char.isDigit with
  | '.' :: d :: rest =>
    if d.isDigit then
      (⟨.token .number, whole ++ '.' :: d :: rest.takeWhile Char.isDigit⟩,
        rest.dropWhile Char.isDigit)
    else (⟨.token .number, whole⟩, '.' :: d :: rest)
  | rest => (⟨.token .number, whole⟩, rest)

/-- The segment that begins with the word character `c`, where `cs` follows it. -/
def afterWordStart (c : Char) (cs : List Char) : Segment × List Char :=
  let word := c :: cs.takeWhile isWordPart
  (⟨.token (Kind.ofWord (String.ofList word)), word⟩, cs.dropWhile isWordPart)

/-- The first segment of the text `c :: cs`, and the text behind it. -/
def next (c : Char) (cs : List Char) : Segment × List Char :=
  match single? c, extensible? c with
  | some kind, _ => (⟨.token kind, [c]⟩, cs)
  | none, some (long, short) =>
    match cs with
    | '=' :: rest => (⟨.token long, [c, '=']⟩, rest)
    | rest => (⟨.token short, [c]⟩, rest)
  | none, none =>
    if c = '/' then afterSlash cs
    else if isSpace c then (⟨.blank, [c]⟩, cs)
    else if c = '\n' then (⟨.newline, [c]⟩, cs)
    else if c = '"' then afterQuote cs
    else if c.isDigit then afterDigit c cs
    else if isWordStart c then afterWordStart c cs
    else (⟨.unexpected, [c]⟩, cs)

/-- Splitting a comment off keeps the text. -/
theorem splitComment?_append {cs body rest : List Char}
    (h : splitComment? cs = some (body, rest)) : body ++ rest = cs := by
  fun_induction splitComment? cs generalizing body with
  | case1 =>
    cases h
    rfl
  | case2 c cs _ ih =>
    obtain ⟨⟨body', rest'⟩, hs, he⟩ := Option.map_eq_some_iff.1 h
    cases he
    exact congrArg (c :: ·) (ih hs)
  | case3 => simp at h

theorem afterSlash_append (cs : List Char) :
    (afterSlash cs).1.text ++ (afterSlash cs).2 = '/' :: cs := by
  unfold afterSlash
  split
  · simp
  · split
    · next h => simp [splitComment?_append h]
    · simp
  · rfl

theorem afterQuote_append (cs : List Char) :
    (afterQuote cs).1.text ++ (afterQuote cs).2 = '"' :: cs := by
  have h := List.takeWhile_append_dropWhile (p := (· != '"')) (l := cs)
  unfold afterQuote
  dsimp only
  split
  · next hd => rw [hd] at h; exact congrArg ('"' :: ·) h
  · next hd => rw [hd] at h; simpa using h

theorem afterDigit_append (c : Char) (cs : List Char) :
    (afterDigit c cs).1.text ++ (afterDigit c cs).2 = c :: cs := by
  have h := List.takeWhile_append_dropWhile (p := Char.isDigit) (l := cs)
  unfold afterDigit
  dsimp only
  split
  · next d rest hd =>
    rw [hd] at h
    split
    · simpa using h
    · simpa using h
  · simp

theorem afterWordStart_append (c : Char) (cs : List Char) :
    (afterWordStart c cs).1.text ++ (afterWordStart c cs).2 = c :: cs := by
  simp [afterWordStart]

/-- The first segment and the rest are the text. -/
theorem next_append (c : Char) (cs : List Char) :
    (next c cs).1.text ++ (next c cs).2 = c :: cs := by
  unfold next
  split
  · rfl
  · split <;> rfl
  · split
    · next h => rw [h]; exact afterSlash_append cs
    · split
      · rfl
      · split
        · rfl
        · split
          · next h => rw [h]; exact afterQuote_append cs
          · split
            · exact afterDigit_append c cs
            · split
              · exact afterWordStart_append c cs
              · rfl

/-- A segment is never empty. -/
theorem next_text_ne_nil (c : Char) (cs : List Char) : (next c cs).1.text ≠ [] := by
  unfold next afterSlash afterQuote afterDigit afterWordStart
  repeat' split
  all_goals simp

/-- The first segment takes at least one character. -/
theorem length_next_lt (c : Char) (cs : List Char) :
    (next c cs).2.length < (c :: cs).length := by
  have happ := congrArg List.length (next_append c cs)
  have hpos := List.length_pos_iff.2 (next_text_ne_nil c cs)
  rw [List.length_append] at happ
  omega

/-- The segments of a text. -/
def split : List Char → List Segment
  | [] => []
  | c :: cs => (next c cs).1 :: split (next c cs).2
termination_by cs => cs.length
decreasing_by exact length_next_lt c cs

/-- The segments of a text put together give the text. -/
theorem flatMap_text_split (cs : List Char) : (split cs).flatMap Segment.text = cs := by
  fun_induction split cs with
  | case1 => rfl
  | case2 c cs ih => rw [List.flatMap_cons, ih, next_append]

theorem text_ne_nil_of_mem_split {cs : List Char} {s : Segment} (h : s ∈ split cs) :
    s.text ≠ [] := by
  fun_induction split cs with
  | case1 => cases h
  | case2 c cs ih =>
    cases h with
    | head => exact next_text_ne_nil c cs
    | tail _ h => exact ih h

/-- The number of line ends in a segment. -/
def newlines (s : Segment) : Nat := s.text.count '\n'

/-- The text of a number token as a number. -/
def numberValue (text : List Char) : Number :=
  .ofDigits (text.takeWhile (· != '.')) ((text.dropWhile (· != '.')).drop 1)

/-- The literal of a token of the given kind and text: the number that is written, or the text
between the quotes. -/
def literal (kind : Kind) (text : List Char) : Value :=
  match kind with
  | .number => .number (numberValue text)
  | .string => .string (String.ofList (text.drop 1).dropLast)
  | _ => .nil

/-- The token of a segment that starts on the given line, if it is one. -/
def token? (line : Int) (s : Segment) : Option Token :=
  match s.cls with
  | .token kind => some ⟨kind, String.ofList s.text, literal kind s.text, line⟩
  | _ => none

end Segment
end LoxLang
