import LoxLang.Tree.Node

/-! # Failures of execution

A program can fail at run time for the causes in `RuntimeCause`, always at a token. A tree that the
parser did not build can fail in two more ways: by a misplaced node, and by an operator that is
none. -/

namespace LoxLang

inductive RuntimeCause where
  | operandNotNumber
  | operandsNotNumbers
  | operandsNotAddable
  | divisionByZero
  | undefinedVariable
  deriving DecidableEq

/-- A runtime error with the token that it happened at. -/
structure RuntimeError where
  cause : RuntimeCause
  token : Token
  deriving DecidableEq

def RuntimeError.message (e : RuntimeError) : String :=
  match e.cause with
  | .operandNotNumber => "Operand must be a number."
  | .operandsNotNumbers => "Operands must be numbers."
  | .operandsNotAddable => "Operands must be two numbers or two strings."
  | .divisionByZero => "Division by zero."
  | .undefinedVariable => "Undefined variable '" ++ e.token.lexeme ++ "'."

/-- Why an execution ends early. -/
inductive Failure where
  | runtime (error : RuntimeError)
  | misplaced (error : Misplaced)
  /-- Two numbers are given to a token that is no binary operator. -/
  | noOperation (operator : Token)
  deriving DecidableEq

end LoxLang
