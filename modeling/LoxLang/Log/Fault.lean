import LoxLang.Machine.Failure
import LoxLang.Parse.Cause
import LoxLang.Text.Integer
import LoxLang.Token.Scan

/-! # Faults

Everything that can go wrong around a program, in the form in which it is reported: errors in the
program's text with their place, errors while it runs, errors of the interpreter itself, and what
comes from the system around it. -/

namespace LoxLang

inductive TokenErrorKind where
  | syntactic
  | runtime
  | typeMismatch
  | divisionByZero
  | undefinedVariable
  deriving DecidableEq

structure TokenError where
  kind : TokenErrorKind
  token : Token
  message : String
  deriving DecidableEq

/-- What a process leaves to its caller. -/
inductive ExitStatus where
  | none
  | code (n : Int)
  | text (s : String)
  deriving DecidableEq

/-- Exit codes. -/
def exitOk : Int := 0

/-- The program has syntax errors. -/
def exitSyntax : Int := 65

/-- The program cannot be read. -/
def exitNoInput : Int := 66

/-- An error at run time, or of the interpreter. -/
def exitSoftware : Int := 70

/-- An error of the interpreter or of a program. -/
inductive Error where
  | general (message : String) (internal : Bool) (exitCode : Int)
  /-- An error on a line of a program's text. -/
  | lexical (line : Int) (message : String)
  | located (error : TokenError)
  deriving DecidableEq

/-- Something that was raised. -/
inductive Fault where
  | error (e : Error)
  /-- A failure of the system around the interpreter: its class and its text. -/
  | system (className text : String)
  | interrupt
  | recursionLimit
  | exit (status : ExitStatus)
  deriving DecidableEq

def LexError.toError (e : LexError) : Error := .lexical e.line e.cause.message

def ParseError.toError (e : ParseError) : Error :=
  .located ⟨.syntactic, e.token, e.cause.message⟩

/-- The kind under which a cause is reported. -/
def RuntimeCause.kind : RuntimeCause → TokenErrorKind
  | .operandNotNumber | .operandsNotNumbers | .operandsNotAddable => .typeMismatch
  | .divisionByZero => .divisionByZero
  | .undefinedVariable => .undefinedVariable

def RuntimeError.toTokenError (e : RuntimeError) : TokenError :=
  ⟨e.cause.kind, e.token, e.message⟩

def Misplaced.toError (m : Misplaced) : Error := .general m.message true exitSoftware

/-- A kind as a member of the enumeration of kinds, with its number there. -/
def Kind.memberText (k : Kind) : String :=
  "<TokenType." ++ k.name ++ ": " ++ Text.natural (Kind.all.idxOf k + 1) ++ ">"

def Failure.toFault : Failure → Fault
  | .runtime e => .error (.located e.toTokenError)
  | .misplaced m => .error m.toError
  | .noOperation operator => .system "KeyError" operator.kind.memberText

/-- What is printed of an error that reaches the outside, and how the process ends by it. -/
structure Notice where
  message : String
  internal : Bool
  exitCode : Int
  deriving DecidableEq

def Error.notice : Error → Notice
  | .general message internal exitCode => ⟨message, internal, exitCode⟩
  | .lexical _ message => ⟨message, false, exitSyntax⟩
  | .located e => ⟨e.message, false, if e.kind = .syntactic then exitSyntax else exitSoftware⟩

/-- A reported syntax error: its line, the place in the line, and what is wrong. -/
structure Report where
  line : Int
  place : String
  message : String
  deriving DecidableEq

def Token.place (t : Token) : String :=
  if t.kind = .eof then " at end" else " at '" ++ t.lexeme ++ "'"

/-- The report of an error, if it is one in a program's text. -/
def Error.report? : Error → Option Report
  | .lexical line message => some ⟨line, "", message⟩
  | .located e =>
    if e.kind = .syntactic then some ⟨e.token.line, e.token.place, e.message⟩ else none
  | .general .. => none

end LoxLang
