import LoxLang.Tree.Node

/-! # Trees as text

A tree is shown in parentheses with the operator first: `1 + 2 * 3` is `(+ 1 (* 2 3))`. A string
in place of a node is copied, but it is no tree of its own. -/

namespace LoxLang

/-- A head and its parts between parentheses. -/
def parenthesize (head : String) (parts : List String) : String :=
  "(" ++ head ++ String.join (parts.map (" " ++ ·)) ++ ")"

mutual

/-- The text of a node inside another one. -/
def Node.partText : Node → Except Misplaced String
  | .assign name value => do
    return parenthesize "=" [name.lexeme, ← value.partText]
  | .binary left operator right => do
    let leftText ← left.partText
    return parenthesize operator.lexeme [leftText, ← right.partText]
  | .grouping inner => do
    return parenthesize "group" [← inner.partText]
  | .literal value => return value.display
  | .unary operator right => do
    return parenthesize operator.lexeme [← right.partText]
  | .variable name => return name.lexeme
  | .block statements => do
    return parenthesize "block" (← Node.partTexts statements)
  | .expression expr => do
    return parenthesize ";" [← expr.partText]
  | .print expr => do
    return parenthesize "print" [← expr.partText]
  | .var name .absent => return parenthesize "var" [name.lexeme]
  | .var name initializer => do
    return parenthesize "var" [name.lexeme, ← initializer.partText]
  | .text s => return s
  | .unknownExpr => throw (.of .print .unknownExpr)
  | .unknownStmt => throw (.of .print .unknownStmt)
  | .absent => throw (.of .print .absent)

/-- The texts of nodes inside another one. -/
def Node.partTexts : List Node → Except Misplaced (List String)
  | [] => return []
  | node :: rest => do
    let text ← node.partText
    return text :: (← Node.partTexts rest)

end

def Node.render (node : Node) : Except Misplaced String :=
  match node with
  | .text _ => throw (.of .print node)
  | _ => node.partText

end LoxLang
