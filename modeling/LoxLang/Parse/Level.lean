import LoxLang.Token.Basic

/-! # Levels of precedence -/

namespace LoxLang

/-- The levels of the expression grammar, the loosest first. -/
inductive Level where
  | assignment
  | equality
  | comparison
  | term
  | factor
  | unary
  | primary
  deriving DecidableEq

namespace Level

/-- How many levels bind tighter. -/
@[simp]
def rank : Level → Nat
  | assignment => 6
  | equality => 5
  | comparison => 4
  | term => 3
  | factor => 2
  | unary => 1
  | primary => 0

/-- The level of the operands. -/
def operand : Level → Level
  | assignment => equality
  | equality => comparison
  | comparison => term
  | term => factor
  | factor => unary
  | unary => primary
  | primary => primary

/-- The operators of a level, which stand between operands or, at the unary level, in front. -/
def hasOperator : Level → Kind → Bool
  | equality, .bangEqual | equality, .equalEqual => true
  | comparison, .greater | comparison, .greaterEqual => true
  | comparison, .less | comparison, .lessEqual => true
  | term, .minus | term, .plus => true
  | factor, .slash | factor, .star => true
  | unary, .bang | unary, .minus => true
  | _, _ => false

end Level
end LoxLang
