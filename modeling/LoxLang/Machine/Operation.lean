import LoxLang.Machine.Failure

/-! # Operations on values

The unary and binary operators. All but addition and the comparisons for equality need numbers;
addition also joins strings, and a string with the display of a number on either side. -/

namespace LoxLang

/-- The error for operands that are not all numbers. -/
def numbersExpected (operator : Token) (operands : List Value) : RuntimeError :=
  ⟨if operands.length = 1 then .operandNotNumber else .operandsNotNumbers, operator⟩

/-- Fails unless all operands are numbers. -/
def expectNumbers (operator : Token) (operands : List Value) : Except RuntimeError Unit :=
  if operands.all Value.isNumber then .ok () else .error (numbersExpected operator operands)

def add (operator : Token) : Value → Value → Except Failure Value
  | .number x, .number y => .ok (.number (x + y))
  | .string s, .string t => .ok (.string (s ++ t))
  | .string s, .number y => .ok (.string (s ++ y.display))
  | .number x, .string t => .ok (.string (x.display ++ t))
  | _, _ => .error (.runtime ⟨.operandsNotAddable, operator⟩)

/-- The operators on two numbers. -/
def arithmetic (operator : Token) (x y : Number) : Except Failure Value :=
  match operator.kind with
  | .minus => .ok (.number (x - y))
  | .star => .ok (.number (x * y))
  | .slash =>
    if y == 0 then .error (.runtime ⟨.divisionByZero, operator⟩) else .ok (.number (x / y))
  | .greater => .ok (.bool (y < x))
  | .greaterEqual => .ok (.bool (y ≤ x))
  | .less => .ok (.bool (x < y))
  | .lessEqual => .ok (.bool (x ≤ y))
  | _ => .error (.noOperation operator)

def applyBinary (operator : Token) (left right : Value) : Except Failure Value :=
  match operator.kind with
  | .plus => add operator left right
  | .equalEqual => .ok (.bool (left.isEqual right))
  | .bangEqual => .ok (.bool (!left.isEqual right))
  | _ =>
    match left, right with
    | .number x, .number y => arithmetic operator x y
    | _, _ => .error (.runtime (numbersExpected operator [left, right]))

/-- The unary operators: the exclamation mark negates the truth of a value, and every other
operator the number. -/
def applyUnary (operator : Token) (right : Value) : Except Failure Value :=
  if operator.kind = .bang then .ok (.bool (!right.isTruthy))
  else
    match right with
    | .number x => .ok (.number (-x))
    | _ => .error (.runtime (numbersExpected operator [right]))

end LoxLang
