import LoxLang.Token.Basic

/-! # Syntax errors

What the parser finds wrong, and the token that it blames. -/

namespace LoxLang

/-- What is wrong at a token. All but the last are raised: the statement in which one occurs is
given up. -/
inductive ParseCause where
  | expectExpression
  | expectRightParen
  | expectVariableName
  | expectSemicolonAfterVariable
  | expectSemicolonAfterValue
  | expectSemicolonAfterExpression
  | expectRightBrace
  /-- An assignment to something that is not a variable. -/
  | invalidTarget
  deriving DecidableEq

def ParseCause.message : ParseCause → String
  | .expectExpression => "Expect expression."
  | .expectRightParen => "Expect ')' after expression."
  | .expectVariableName => "Expect variable name."
  | .expectSemicolonAfterVariable => "Expect ';' after variable declaration."
  | .expectSemicolonAfterValue => "Expect ';' after value."
  | .expectSemicolonAfterExpression => "Expect ';' after expression."
  | .expectRightBrace => "Expect '\x7d' after block."
  | .invalidTarget => "Invalid assignment target."

/-- A syntax error at a token. -/
structure ParseError where
  cause : ParseCause
  token : Token
  deriving DecidableEq

end LoxLang
