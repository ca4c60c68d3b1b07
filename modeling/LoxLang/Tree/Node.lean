import LoxLang.Tree.Basic

/-! # Unchecked trees

A tree that was not built by the parser may have any node at any place, strings or nothing in place
of nodes, and nodes of no known variant. Such trees are the input of everything that walks a tree,
and a node that does not fit is an error of its own, `Misplaced`. The trees of the parser are
embedded by `Expr.toNode` and `Stmt.toNode`. -/

namespace LoxLang

/-- A tree with nodes of any kind at any place. -/
inductive Node where
  | assign (name : Token) (value : Node)
  | binary (left : Node) (operator : Token) (right : Node)
  | grouping (inner : Node)
  | literal (value : Value)
  | unary (operator : Token) (right : Node)
  | variable (name : Token)
  | block (statements : List Node)
  | expression (expr : Node)
  | print (expr : Node)
  /-- A declaration. Without an initializer there is nothing in its place. -/
  | var (name : Token) (initializer : Node)
  /-- An expression of no known variant. -/
  | unknownExpr
  /-- A statement of no known variant. -/
  | unknownStmt
  /-- A plain string in place of a node. -/
  | text (s : String)
  /-- Nothing in place of a node. -/
  | absent

/-- The name of a node's class in messages. -/
def Node.className : Node → String
  | .assign .. => "Assign"
  | .binary .. => "Binary"
  | .grouping .. => "Grouping"
  | .literal .. => "Literal"
  | .unary .. => "Unary"
  | .variable .. => "Variable"
  | .block .. => "Block"
  | .expression .. => "Expression"
  | .print .. => "Print"
  | .var .. => "Var"
  | .unknownExpr => "Expr"
  | .unknownStmt => "Stmt"
  | .text .. => "str"
  | .absent => "NoneType"

/-- What can be done with a node. -/
inductive Task where
  | execute
  | evaluate
  | print
  deriving DecidableEq

def Task.verb : Task → String
  | .execute => "execute"
  | .evaluate => "evaluate"
  | .print => "print"

/-- A task for which a node of some class does not fit. -/
structure Misplaced where
  task : Task
  className : String
  deriving DecidableEq

/-- The given node does not fit the task. -/
def Misplaced.of (task : Task) (node : Node) : Misplaced := ⟨task, node.className⟩

def Misplaced.message (m : Misplaced) : String :=
  "cannot " ++ m.task.verb ++ " '" ++ m.className ++ "'"

def Expr.toNode : Expr → Node
  | .assign name value => .assign name value.toNode
  | .binary left operator right => .binary left.toNode operator right.toNode
  | .grouping inner => .grouping inner.toNode
  | .literal value => .literal value
  | .unary operator right => .unary operator right.toNode
  | .variable name => .variable name

theorem Expr.toNode_ne_absent (e : Expr) : e.toNode ≠ .absent := by
  cases e <;> nofun

mutual

def Stmt.toNode : Stmt → Node
  | .block statements => .block (Stmt.toNodes statements)
  | .expression expr => .expression expr.toNode
  | .print expr => .print expr.toNode
  | .var name initializer => .var name (initializer.elim .absent Expr.toNode)

def Stmt.toNodes : List Stmt → List Node
  | [] => []
  | s :: rest => s.toNode :: Stmt.toNodes rest

end

end LoxLang
