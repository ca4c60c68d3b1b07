import LoxLang.Log.Basic
import LoxLang.Machine.Basic
import LoxLang.Parse.Stmt
import LoxLang.SourceFile

/-! # Engines

An engine runs programs one after the other in the same global scope and with the same error log.
A program is executed only if the log holds no syntax error, neither of this program nor of an
earlier one; resetting the log is left to the user of the engine. -/

namespace LoxLang

structure Engine where
  log : Log
  scopes : Chain
  deriving DecidableEq

/-- What came of running something in an engine. -/
structure Outcome where
  engine : Engine
  printed : List String
  /-- The fault that goes on to the caller. -/
  fault : Option Fault

namespace Outcome

def text (o : Outcome) : String := String.join (o.printed.map (· ++ "\n"))

end Outcome

namespace Engine

/-- An engine in which nothing happened. -/
def empty (fatal : Bool) : Engine := ⟨.empty fatal, .empty⟩

def reset (s : Engine) : Engine := { s with log := s.log.reset }

/-- Scans a source, and records what is wrong with it. -/
def scan (s : Engine) (source : String) : List Token × Engine :=
  let scanned := LoxLang.scan source
  (scanned.tokens, { s with log := s.log.reportAll (scanned.errors.map LexError.toError) })

/-- Parses tokens, and records the syntax errors. -/
def parseTokens (s : Engine) (tokens : List Token) : List Stmt × Engine :=
  let parsed := LoxLang.parse tokens
  (parsed.statements, { s with log := s.log.reportAll (parsed.errors.map ParseError.toError) })

def parse (s : Engine) (source : String) : List Stmt × Engine :=
  let (tokens, s) := s.scan source
  s.parseTokens tokens

/-- Executes nodes. A runtime error stops the execution and is recorded; any other failure goes on
to the caller. -/
def interpret (s : Engine) (nodes : List Node) : Outcome :=
  match s.scopes.run nodes with
  | (m, none) => ⟨{ s with scopes := m.scopes }, m.printed, none⟩
  | (m, some (.runtime e)) =>
    ⟨⟨s.log.runtimeError e.toTokenError, m.scopes⟩, m.printed, none⟩
  | (m, some failure) => ⟨{ s with scopes := m.scopes }, m.printed, some failure.toFault⟩

/-- A program that is a single expression, as one that prints its value. -/
def echoed : List Stmt → List Stmt
  | [.expression expr] => [.print expr]
  | statements => statements

/-- Runs a source. With `echo`, a single expression prints its value. -/
def run (s : Engine) (source : String) (echo : Bool) : Outcome :=
  let (statements, s) := s.parse source
  if s.log.hadError then ⟨s, [], none⟩
  else s.interpret (Stmt.toNodes (if echo then echoed statements else statements))

def runFile (s : Engine) (path : String) (file : SourceFile) : Outcome :=
  match file.source path with
  | .ok source => s.run source false
  | .error fault => ⟨s, [], some fault⟩

end Engine
end LoxLang
