import LoxLang.Text.Blank
import LoxLang.Value

/-! # Tokens

The lexical units that programs are parsed from. A token keeps the text it was written as, the
line it starts on, and the value of a number or string. -/

namespace LoxLang

inductive Kind where
  | leftParen | rightParen | leftBrace | rightBrace
  | comma | dot | minus | plus | semicolon | slash | star
  | bang | bangEqual | equal | equalEqual | greater | greaterEqual | less | lessEqual
  | identifier | string | number
  | kwAnd | kwClass | kwElse | kwFalse | kwFun | kwFor | kwIf | kwNil | kwOr | kwPrint
  | kwReturn | kwSuper | kwThis | kwTrue | kwVar | kwWhile
  | eof
  deriving DecidableEq

namespace Kind

/-- Every kind, in the order of its declaration. -/
def all : List Kind :=
  [leftParen, rightParen, leftBrace, rightBrace, comma, dot, minus, plus, semicolon, slash, star,
   bang, bangEqual, equal, equalEqual, greater, greaterEqual, less, lessEqual,
   identifier, string, number,
   kwAnd, kwClass, kwElse, kwFalse, kwFun, kwFor, kwIf, kwNil, kwOr, kwPrint,
   kwReturn, kwSuper, kwThis, kwTrue, kwVar, kwWhile, eof]

/-- The name of a kind in a listing of tokens. -/
def name : Kind → String
  | leftParen => "LEFT_PAREN"
  | rightParen => "RIGHT_PAREN"
  | leftBrace => "LEFT_BRACE"
  | rightBrace => "RIGHT_BRACE"
  | comma => "COMMA"
  | dot => "DOT"
  | minus => "MINUS"
  | plus => "PLUS"
  | semicolon => "SEMICOLON"
  | slash => "SLASH"
  | star => "STAR"
  | bang => "BANG"
  | bangEqual => "BANG_EQUAL"
  | equal => "EQUAL"
  | equalEqual => "EQUAL_EQUAL"
  | greater => "GREATER"
  | greaterEqual => "GREATER_EQUAL"
  | less => "LESS"
  | lessEqual => "LESS_EQUAL"
  | identifier => "IDENTIFIER"
  | string => "STRING"
  | number => "NUMBER"
  | kwAnd => "AND"
  | kwClass => "CLASS"
  | kwElse => "ELSE"
  | kwFalse => "FALSE"
  | kwFun => "FUN"
  | kwFor => "FOR"
  | kwIf => "IF"
  | kwNil => "NIL"
  | kwOr => "OR"
  | kwPrint => "PRINT"
  | kwReturn => "RETURN"
  | kwSuper => "SUPER"
  | kwThis => "THIS"
  | kwTrue => "TRUE"
  | kwVar => "VAR"
  | kwWhile => "WHILE"
  | eof => "EOF"

def ofName? (s : String) : Option Kind :=
  all.find? fun k => k.name == s

def keywords : List (String × Kind) :=
  [("and", kwAnd), ("class", kwClass), ("else", kwElse), ("false", kwFalse), ("for", kwFor),
   ("fun", kwFun), ("if", kwIf), ("nil", kwNil), ("or", kwOr), ("print", kwPrint),
   ("return", kwReturn), ("super", kwSuper), ("this", kwThis), ("true", kwTrue), ("var", kwVar),
   ("while", kwWhile)]

/-- The kind of a word: a reserved word has its own, and every other word is an identifier. -/
def ofWord (word : String) : Kind :=
  (keywords.lookup word).getD identifier

/-- The keywords that begin a statement, reserved for future statements included. -/
def startsStatement : Kind → Bool
  | kwClass | kwFun | kwVar | kwFor | kwIf | kwWhile | kwPrint | kwReturn => true
  | _ => false

end Kind

/-- A token. Its literal is `nil` unless it is a number or a string. -/
structure Token where
  kind : Kind
  lexeme : String
  literal : Value
  line : Int
  deriving DecidableEq

namespace Token

/-- The token that marks the end of a program. -/
def endAt (line : Int) : Token := ⟨.eof, "", .nil, line⟩

/-- The line of a token in a listing: kind, lexeme and literal, without blanks at the end. -/
def text (t : Token) : String :=
  let full := t.kind.name ++ " " ++ t.lexeme ++ " " ++ t.literal.listing
  String.ofList (Text.stripRight full.toList)

end Token
end LoxLang
