import LoxLang.Text.Blank

/-! # Commands of the interactive loop

A typed line is source text unless its first word is one of the three commands and nothing follows
that word. A question mark in front stands for the word `help`. -/

namespace LoxLang

inductive Command where
  | blank
  | help
  | exit
  | endOfInput
  /-- Source text is to be run. -/
  | source (text : String)
  deriving DecidableEq

namespace Command

def isWordChar (c : Char) : Bool := c.isAlphanum || c == '_'

/-- The command for a line that begins with the given command word, or the line as source text:
the word and what follows it, with one space between them. -/
def ofWord (command : Command) (word : String) (argument : List Char) : Command :=
  if argument.isEmpty then command else source (word ++ " " ++ String.ofList argument)

/-- The command of a line. Blanks around it do not count. -/
def ofLine (line : String) : Command :=
  match Text.strip line.toList with
  | [] => blank
  | '?' :: rest => ofWord help "help" (Text.strip rest)
  | stripped =>
    let word := String.ofList (stripped.takeWhile isWordChar)
    let argument := Text.strip (stripped.dropWhile isWordChar)
    if word = "help" then ofWord help word argument
    else if word = "exit" then ofWord exit word argument
    else if word = "EOF" then ofWord endOfInput word argument
    else source (String.ofList stripped)

end Command
end LoxLang
