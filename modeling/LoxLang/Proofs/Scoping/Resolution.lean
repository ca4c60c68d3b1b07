import LoxLang.Proofs.Machine.Renaming

/-! # Static resolution of names

A name in a program can be resolved before the program runs: it means the variable of the innermost
enclosing block that declares it, directly and in a statement in front of the one in which the name
occurs; if there is no such block, it means a global variable. `Stmt.resolveAll` marks each
occurrence of a name in a program with its position, from which its distance to the declaring block
follows. `runResolved` executes such a program: it reads and writes the scope at that distance, and
looks at no other. -/

namespace LoxLang

/-- The statement declares the name in the scope in which it stands. -/
def Stmt.declares (s : Stmt) (name : String) : Bool :=
  match s with
  | .var other _ => name = other.lexeme
  | .block _ | .expression _ | .print _ => false

/-- One of the statements declares the name in the scope in which they stand. -/
def Stmt.anyDeclares (ss : List Stmt) (name : String) : Bool := ss.any (·.declares name)

/-- A place in a program, by the statements in front of it. -/
structure Position where
  /-- In front of it in each enclosing block, the innermost first. -/
  blocks : List (List Stmt)
  /-- In front of it in no block. -/
  program : List Stmt

namespace Position

/-- The start of a program. -/
def start : Position := ⟨[], []⟩

/-- The start of a block. -/
def enter (p : Position) : Position := { p with blocks := [] :: p.blocks }

/-- The place behind a statement. -/
def behind (p : Position) (s : Stmt) : Position :=
  match p.blocks with
  | [] => { p with program := p.program ++ [s] }
  | earlier :: outer => { p with blocks := (earlier ++ [s]) :: outer }

/-- How many blocks lie between a place and the innermost block around it that declares the name;
`none` if no block does. -/
def distance? (p : Position) (name : String) : Option Nat :=
  p.blocks.findIdx? (Stmt.anyDeclares · name)

end Position

/-- An occurrence of a name in a program, with its place. -/
structure Occurrence where
  name : Token
  position : Position

/-- The distance to the block whose variable is meant; `none` means a global variable. -/
def Occurrence.distance? (o : Occurrence) : Option Nat := o.position.distance? o.name.lexeme

/-- An expression in which the occurrences of names are marked. -/
inductive ResolvedExpr where
  | assign (target : Occurrence) (value : ResolvedExpr)
  | binary (left : ResolvedExpr) (operator : Token) (right : ResolvedExpr)
  | grouping (inner : ResolvedExpr)
  | literal (value : Value)
  | unary (operator : Token) (right : ResolvedExpr)
  | variable (occurrence : Occurrence)

/-- A statement in which the occurrences of names are marked. -/
inductive ResolvedStmt where
  | block (statements : List ResolvedStmt)
  | expression (expr : ResolvedExpr)
  | print (expr : ResolvedExpr)
  | var (name : Token) (initializer : Option ResolvedExpr)

/-- The expression in a statement at the given place. -/
def Expr.resolve (p : Position) : Expr → ResolvedExpr
  | .assign name value => .assign ⟨name, p⟩ (value.resolve p)
  | .binary left operator right => .binary (left.resolve p) operator (right.resolve p)
  | .grouping inner => .grouping (inner.resolve p)
  | .literal value => .literal value
  | .unary operator right => .unary operator (right.resolve p)
  | .variable name => .variable ⟨name, p⟩

mutual

/-- The statement at the given place. -/
def Stmt.resolve (p : Position) : Stmt → ResolvedStmt
  | .block statements => .block (Stmt.resolveAll p.enter statements)
  | .expression expr => .expression (expr.resolve p)
  | .print expr => .print (expr.resolve p)
  | .var name initializer => .var name (initializer.map (Expr.resolve p))

/-- The statements from the given place on. -/
def Stmt.resolveAll (p : Position) : List Stmt → List ResolvedStmt
  | [] => []
  | s :: rest => s.resolve p :: Stmt.resolveAll (p.behind s) rest

end

/-! ## Execution -/

/-- The scope at a distance, or the global one. -/
def Chain.scopeAt (c : Chain) : Option Nat → Bindings
  | some distance => c.locals.getD distance []
  | none => c.globals

/-- Binds a name in the scope at a distance, or in the global one. -/
def Chain.defineAt (c : Chain) (distance? : Option Nat) (name : String) (value : Value) : Chain :=
  match distance? with
  | some distance => { c with locals := c.locals.modify distance (Bindings.define name value) }
  | none => { c with globals := c.globals.define name value }

/-- Why the execution of a resolved program ends early. -/
inductive DirectFailure where
  /-- The scope at the distance of the occurrence does not bind its name. -/
  | undefined (occurrence : Occurrence)
  | other (failure : Failure)

def DirectFailure.toFailure : DirectFailure → Failure
  | undefined o => .runtime ⟨.undefinedVariable, o.name⟩
  | other failure => failure

/-- A step in the execution of a resolved program. -/
abbrev Direct := EStateM DirectFailure Machine

namespace Direct

variable {α : Type}

/-- A step that looks up no name. -/
def ofExec (x : Exec α) : Direct α := renameFailure .other x

def read (o : Occurrence) : Direct Value := do
  match ((← get).scopes.scopeAt o.distance?).get? o.name.lexeme with
  | some value => return value
  | none => throw (.undefined o)

def write (o : Occurrence) (value : Value) : Direct Unit := do
  if ((← get).scopes.scopeAt o.distance?).has o.name.lexeme then
    modify fun m => { m with scopes := m.scopes.defineAt o.distance? o.name.lexeme value }
  else throw (.undefined o)

/-- Executes in a scope of its own, which is closed on success and on failure. -/
def inScope (body : Direct Unit) : Direct Unit := fun m =>
  match body { m with scopes := m.scopes.enter } with
  | .ok a m => .ok a { m with scopes := m.scopes.leave }
  | .error e m => .error e { m with scopes := m.scopes.leave }

end Direct

def ResolvedExpr.eval : ResolvedExpr → Direct Value
  | .assign target value => do
    let value ← value.eval
    Direct.write target value
    return value
  | .binary left operator right => do
    let left ← left.eval
    let right ← right.eval
    Direct.ofExec (Exec.ofExcept (applyBinary operator left right))
  | .grouping inner => inner.eval
  | .literal value => return value
  | .unary operator right => do
    let right ← right.eval
    Direct.ofExec (Exec.ofExcept (applyUnary operator right))
  | .variable occurrence => Direct.read occurrence

mutual

def ResolvedStmt.exec : ResolvedStmt → Direct Unit
  | .block statements => Direct.inScope (ResolvedStmt.execAll statements)
  | .expression expr => do
    let _ ← expr.eval
  | .print expr => do
    let value ← expr.eval
    Direct.ofExec (Exec.printLine value.display)
  | .var name none => Direct.ofExec (Exec.declare name .nil)
  | .var name (some initializer) => do
    let value ← initializer.eval
    Direct.ofExec (Exec.declare name value)

def ResolvedStmt.execAll : List ResolvedStmt → Direct Unit
  | [] => return
  | s :: rest => do
    s.exec
    ResolvedStmt.execAll rest

end

/-- Resolves a program and runs it from the given global scope: the state at the end, and the
failure if there was one. -/
def runResolved (globals : Bindings) (ss : List Stmt) : Machine × Option DirectFailure :=
  match ResolvedStmt.execAll (Stmt.resolveAll .start ss) ⟨⟨[], globals⟩, []⟩ with
  | .ok _ m => (m, none)
  | .error e m => (m, some e)

end LoxLang
