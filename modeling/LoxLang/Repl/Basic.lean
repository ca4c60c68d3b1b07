import LoxLang.Engine
import LoxLang.Repl.Command

/-! # The interactive loop

The loop runs typed lines in one engine. Lines are kept back and joined while they leave a block
open, so that a block can be typed over several lines and runs as a whole; errors of one run do not
affect the next. A single expression prints its value. -/

namespace LoxLang

/-- Whether a source has more opening than closing braces, not counting those in strings and
comments. -/
def isBlockOpen (source : String) : Bool :=
  let kinds := (scan source).tokens.map Token.kind
  kinds.count .rightBrace < kinds.count .leftBrace

/-- What is shown in front of an input line. -/
inductive Prompt where
  | primary
  /-- A block is open. -/
  | secondary
  deriving DecidableEq

def Prompt.text : Prompt → String
  | .primary => "> "
  | .secondary => ". "

/-- A piece of output, by the program that runs or by the loop itself. -/
inductive Output where
  | program (text : String)
  | loop (text : String)
  deriving DecidableEq

namespace Output

def text : Output → String
  | program text => text
  | loop text => text

def programText : Output → String
  | program text => text
  | loop _ => ""

def loopText : Output → String
  | program _ => ""
  | loop text => text

end Output

/-- The state of a loop. -/
structure Repl where
  engine : Engine
  /-- The lines that are kept back while a block is open. -/
  pending : String
  prompt : Prompt
  deriving DecidableEq

/-- What came of a line. -/
structure Answer where
  repl : Repl
  /-- Whether the loop is to stop. -/
  stop : Bool
  output : List Output

namespace Repl

/-- A loop in which nothing was typed. -/
def empty : Repl := ⟨.empty false, "", .primary⟩

/-- What the loop says about itself. -/
def helpText : String :=
  "Welcome to the Lox interpreter!\n\n" ++
  "Statements end with ';'. Try 'var a = 1 + 2;' and then 'print a;'. A line\n" ++
  "holding a single expression, like 'a * 2;', prints its value. Blocks '\x7b ... \x7d'\n" ++
  "may span several lines.\n"

/-- What the loop says at its start. -/
def introText : String :=
  "Lox interpreter :: Python backend\nType 'help' for more information, 'exit' to leave."

/-- Runs a source line behind the pending ones, or keeps it back too. The log is clean after a
run. -/
def submit (r : Repl) (line : String) : Answer :=
  let source := r.pending ++ line
  if isBlockOpen source then
    ⟨{ r with pending := source ++ "\n", prompt := .secondary }, false, []⟩
  else
    let ran := r.engine.run source true
    let (log, _) := ran.engine.log.reset.call (.leave ran.fault)
    ⟨⟨{ ran.engine with log }, "", .primary⟩, false, [.program ran.text]⟩

/-- Takes a line. A blank line matters only inside a block. -/
def step (r : Repl) (line : String) : Answer :=
  match Command.ofLine line with
  | .blank => if r.pending.isEmpty then ⟨r, false, []⟩ else r.submit ""
  | .help => ⟨r, false, [.loop helpText]⟩
  | .exit => ⟨r, true, []⟩
  | .endOfInput => ⟨r, true, [.loop "\n"]⟩
  | .source text => r.submit text

/-- What came of the lines of an input. -/
structure Dialogue where
  repl : Repl
  output : List Output
  /-- The input behind the line that stopped the loop. -/
  unread : List Char

/-- Takes the lines of an input, showing the prompt before each, until one stops the loop; the end
of the input does. -/
def converse (r : Repl) (input : List Char) : Dialogue :=
  match input with
  | [] =>
    let answer := r.step "EOF"
    ⟨answer.repl, .loop r.prompt.text :: answer.output, []⟩
  | c :: cs =>
    let line := (c :: cs).takeWhile (· != '\n')
    let rest := ((c :: cs).dropWhile (· != '\n')).drop 1
    let answer := r.step (String.ofList line)
    let output := .loop r.prompt.text :: answer.output
    if answer.stop then ⟨answer.repl, output, rest⟩
    else
      let others := answer.repl.converse rest
      ⟨others.repl, output ++ others.output, others.unread⟩
termination_by input.length
decreasing_by
  have h := (List.dropWhile_suffix (· != '\n') (l := c :: cs)).length_le
  rw [List.length_drop]
  rw [List.length_cons] at h ⊢
  omega

/-- The introduction, if there is one, and then the dialogue. -/
def start (r : Repl) (intro : String) (input : String) : Dialogue :=
  let dialogue := r.converse input.toList
  if intro.isEmpty then dialogue
  else { dialogue with output := .loop (intro ++ "\n") :: dialogue.output }

end Repl
end LoxLang
