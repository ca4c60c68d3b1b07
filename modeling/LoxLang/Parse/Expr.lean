import LoxLang.Parse.Level
import LoxLang.Parse.Reading
import LoxLang.Tree.Basic

/-! # Reading expressions

One reader per level of precedence. A level of binary operators reads an operand of the next level
and then, as long as one of its operators follows, another operand, folding to the left. An
assignment is read as an equality first: if an equals sign follows, the value is read, and only
then the left side is looked at. -/

namespace LoxLang

/-- The expression that a token is on its own. -/
def Token.atom? (t : Token) : Option Expr :=
  match t.kind with
  | .kwFalse => some (.literal (.bool false))
  | .kwTrue => some (.literal (.bool true))
  | .kwNil => some (.literal .nil)
  | .number | .string => some (.literal t.literal)
  | .identifier => some (.variable t)
  | _ => none

/-- The assignment of a value by the equals sign `equals` to what was read in front of it. Only a
variable can be assigned to; for anything else that is an error and the left side remains, but
reading goes on. -/
def assignTo {n : Nat} (target : Expr) (equals : Token) (value : Expr) (rest : List Token)
    (h : rest.length < n) : Bounded n Expr :=
  match target with
  | .variable name => .done (.assign name value) rest h
  | _ => .doneWith target rest h ⟨.invalidTarget, equals⟩

mutual

/-- Reads an expression of the given level. The token `last` stands behind the list. -/
def readLevel (last : Token) (level : Level) (ts : List Token) : Bounded ts.length Expr :=
  match level with
  | .assignment =>
    (readLevel last .equality ts).bind fun target rest h =>
      match rest, h with
      | [], h => .done target [] h
      | t :: rest, h =>
        if t.kind = .equal then
          have hrest := length_lt_of_cons h
          ((readLevel last .assignment rest).below hrest).bind fun value rest h =>
            assignTo target t value rest h
        else .done target (t :: rest) h
  | .equality =>
    (readLevel last .comparison ts).bind fun left rest h =>
      (readMore last .equality left rest).weaken h
  | .comparison =>
    (readLevel last .term ts).bind fun left rest h =>
      (readMore last .comparison left rest).weaken h
  | .term =>
    (readLevel last .factor ts).bind fun left rest h =>
      (readMore last .term left rest).weaken h
  | .factor =>
    (readLevel last .unary ts).bind fun left rest h =>
      (readMore last .factor left rest).weaken h
  | .unary =>
    match ts with
    | [] => readLevel last .primary []
    | t :: rest =>
      if Level.unary.hasOperator t.kind then
        ((readLevel last .unary rest).below (length_lt_cons t rest)).bind fun right rest h =>
          .done (.unary t right) rest h
      else readLevel last .primary (t :: rest)
  | .primary =>
    match ts with
    | [] => .stuck last .expectExpression []
    | t :: rest =>
      have h := length_lt_cons t rest
      match t.atom? with
      | some expr => .done expr rest h
      | none =>
        if t.kind = .leftParen then
          ((readLevel last .assignment rest).below h).bind fun inner rest h =>
            ((expect last .rightParen .expectRightParen rest).below h).bind fun _ rest h =>
              .done (.grouping inner) rest h
        else .stuck last .expectExpression (t :: rest)
termination_by (ts.length, level.rank)

/-- Reads the operators of the given level that follow, with their right operands. -/
def readMore (last : Token) (level : Level) (left : Expr) (ts : List Token) :
    Bounded (ts.length + 1) Expr :=
  match ts with
  | [] => .done left [] (Nat.lt_succ_self _)
  | t :: rest =>
    if level.hasOperator t.kind then
      let r : Bounded (t :: rest).length Expr :=
        ((readLevel last level.operand rest).below (length_lt_cons t rest)).bind
          fun right rest' h => (readMore last level (.binary left t right) rest').weaken h
      r.weaken (Nat.le_succ _)
    else .done left (t :: rest) (Nat.lt_succ_self _)
termination_by (ts.length, 0)

end

def readExpr (last : Token) (ts : List Token) : Bounded ts.length Expr :=
  readLevel last .assignment ts

end LoxLang
