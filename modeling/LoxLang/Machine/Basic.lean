import LoxLang.Machine.Operation
import LoxLang.Scope.Chain

/-! # Execution

Trees are executed directly, node by node. The state is the chain of scopes and what was printed;
a failure ends the execution but keeps the state up to it. A block is executed in a scope of its
own, which is closed however the execution of its statements ends. -/

namespace LoxLang

/-- The state of an execution. -/
structure Machine where
  scopes : Chain
  printed : List String

/-- A step of an execution: it changes the state, and gives a value or fails. -/
abbrev Exec := EStateM Failure Machine

namespace Exec

def ofExcept {α : Type} : Except Failure α → Exec α
  | .ok a => pure a
  | .error e => throw e

/-- Fails at a node that does not fit. -/
def misplaced {α : Type} (task : Task) (node : Node) : Exec α :=
  throw (.misplaced (.of task node))

def getVariable (name : Token) : Exec Value := do
  match (← get).scopes.get? name.lexeme with
  | some value => return value
  | none => throw (.runtime ⟨.undefinedVariable, name⟩)

def setVariable (name : Token) (value : Value) : Exec Unit := do
  match (← get).scopes.assign? name.lexeme value with
  | some scopes => modify fun m => { m with scopes }
  | none => throw (.runtime ⟨.undefinedVariable, name⟩)

/-- Declares a variable in the current scope. -/
def declare (name : Token) (value : Value) : Exec Unit :=
  modify fun m => { m with scopes := m.scopes.define name.lexeme value }

def printLine (line : String) : Exec Unit :=
  modify fun m => { m with printed := m.printed ++ [line] }

/-- Executes in a scope of its own, which is closed on success and on failure. -/
def inScope (body : Exec Unit) : Exec Unit := fun m =>
  match body { m with scopes := m.scopes.enter } with
  | .ok a m => .ok a { m with scopes := m.scopes.leave }
  | .error e m => .error e { m with scopes := m.scopes.leave }

end Exec

/-- Evaluates a node as an expression. -/
def Node.eval : Node → Exec Value
  | .assign name value => do
    let value ← value.eval
    Exec.setVariable name value
    return value
  | .binary left operator right => do
    let left ← left.eval
    let right ← right.eval
    Exec.ofExcept (applyBinary operator left right)
  | .grouping inner => inner.eval
  | .literal value => return value
  | .unary operator right => do
    let right ← right.eval
    Exec.ofExcept (applyUnary operator right)
  | .variable name => Exec.getVariable name
  | node => Exec.misplaced .evaluate node

/-- The value of an initializer: nothing in its place gives `nil`. -/
def Node.initialValue : Node → Exec Value
  | .absent => return .nil
  | node => node.eval

theorem Expr.initialValue_toNode (e : Expr) : e.toNode.initialValue = e.toNode.eval := by
  cases e <;> rfl

mutual

/-- Executes a node as a statement. -/
def Node.exec : Node → Exec Unit
  | .block statements => Exec.inScope (Node.execAll statements)
  | .expression expr => do
    let _ ← expr.eval
  | .print expr => do
    let value ← expr.eval
    Exec.printLine value.display
  | .var name initializer => do
    let value ← initializer.initialValue
    Exec.declare name value
  | node => Exec.misplaced .execute node

/-- Executes nodes one after the other, up to the first failure. -/
def Node.execAll : List Node → Exec Unit
  | [] => return
  | node :: rest => do
    node.exec
    Node.execAll rest

end

/-- Runs nodes from the given scopes: the state at the end, and the failure if there was one. -/
def Chain.run (scopes : Chain) (nodes : List Node) : Machine × Option Failure :=
  match Node.execAll nodes ⟨scopes, []⟩ with
  | .ok _ m => (m, none)
  | .error e m => (m, some e)

/-- Evaluates a node in the given scopes: its value or the failure, and the scopes at the end. -/
def Chain.evaluate (scopes : Chain) (node : Node) : Except Failure Value × Chain :=
  match node.eval ⟨scopes, []⟩ with
  | .ok value m => (.ok value, m.scopes)
  | .error e m => (.error e, m.scopes)

end LoxLang
