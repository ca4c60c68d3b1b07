import LoxLang.Parse.Stmt

/-! # The parser as a walk over the tokens

The readers hand each other what is left of the tokens. Here the same parser walks over the whole
list instead, end mark and all, and knows its place in it only by a number, the cursor. Nothing
bounds this walk: an index may be out of range, one below zero counts from the end of the list, and
the loops need not end, so they are cut off after a number of rounds. What the walk does with its
cursor is recorded on the way. -/

namespace LoxLang

/-- The state of a walk. -/
structure Cursor where
  /-- The place of the next token. -/
  current : Nat := 0
  errors : List ParseError := []
  /-- All the places where the cursor has been, in their order. -/
  visited : List Nat := [0]
  /-- The places from which the token in front was asked for. -/
  lookedBack : List Nat := []
  /-- The places in front of each declaration and behind it. -/
  declared : List (Nat × Nat) := []

/-- Why a walk stops early. -/
inductive Stop where
  /-- A syntax error was raised. -/
  | syntaxError
  /-- There is no token at an index. -/
  | outOfRange
  /-- There was no fuel left. -/
  | cutOff

/-- A part of a walk: it may stop early, and it moves the cursor in any case. -/
abbrev Walk := ExceptT Stop (StateM Cursor)

namespace Walk

variable (tokens : List Token)

/-- The token at an index. Indices below zero count from the end. -/
def tokenAt (i : Int) : Walk Token :=
  match if 0 ≤ i then tokens[i.toNat]? else tokens.reverse[(-i - 1).toNat]? with
  | some t => pure t
  | none => throw .outOfRange

def peek : Walk Token := do
  tokenAt tokens (← get).current

def previous : Walk Token := do
  modify fun c => { c with lookedBack := c.lookedBack ++ [c.current] }
  tokenAt tokens ((← get).current - 1)

def isAtEnd : Walk Bool := do
  return (← peek tokens).kind = .eof

def step : Walk Unit :=
  modify fun c => { c with current := c.current + 1, visited := c.visited ++ [c.current + 1] }

/-- Takes the next token, unless it is an end mark. -/
def advance : Walk Token := do
  unless ← isAtEnd tokens do step
  previous tokens

def check (accepts : Kind → Bool) : Walk Bool := do
  if ← isAtEnd tokens then return false
  else return accepts (← peek tokens).kind

/-- Takes the next token if it is of an accepted kind. -/
def accept (accepts : Kind → Bool) : Walk Bool := do
  if ← check tokens accepts then
    let _ ← advance tokens
    return true
  else return false

def report (e : ParseError) : Walk Unit :=
  modify fun c => { c with errors := c.errors ++ [e] }

/-- Reports an error at the next token, and raises it. -/
def fail {α : Type} (cause : ParseCause) : Walk α := do
  report ⟨cause, ← peek tokens⟩
  throw .syntaxError

def consume (kind : Kind) (cause : ParseCause) : Walk Token := do
  if ← check tokens (· = kind) then advance tokens
  else fail tokens cause

/-! ## Expressions -/

/-- The assignment of a value to what was read in front of the equals sign. -/
def assign (target : Expr) (equals : Token) (value : Expr) : Walk Expr :=
  match target with
  | .variable name => pure (.assign name value)
  | _ => do
    report ⟨.invalidTarget, equals⟩
    return target

mutual

def level : Nat → Level → Walk Expr
  | 0, _ => throw .cutOff
  | fuel + 1, .assignment => do
    let target ← level fuel .equality
    if ← accept tokens (· = .equal) then
      let equals ← previous tokens
      let value ← level fuel .assignment
      assign target equals value
    else return target
  | fuel + 1, .unary => do
    if ← accept tokens Level.unary.hasOperator then
      let operator ← previous tokens
      let right ← level fuel .unary
      return .unary operator right
    else level fuel .primary
  | fuel + 1, .primary => do
    if ← accept tokens (· = .kwFalse) then return .literal (.bool false)
    else if ← accept tokens (· = .kwTrue) then return .literal (.bool true)
    else if ← accept tokens (· = .kwNil) then return .literal .nil
    else if ← accept tokens (fun k => k = .number || k = .string) then
      return .literal (← previous tokens).literal
    else if ← accept tokens (· = .identifier) then
      return .variable (← previous tokens)
    else if ← accept tokens (· = .leftParen) then
      let inner ← level fuel .assignment
      let _ ← consume tokens .rightParen .expectRightParen
      return .grouping inner
    else fail tokens .expectExpression
  | fuel + 1, l => do
    let left ← level fuel l.operand
    more fuel l left

/-- The loop over the operators of a level. -/
def more : Nat → Level → Expr → Walk Expr
  | 0, _, _ => throw .cutOff
  | fuel + 1, l, left => do
    if ← accept tokens l.hasOperator then
      let operator ← previous tokens
      let right ← level fuel l.operand
      more fuel l (.binary left operator right)
    else return left

end

/-! ## Statements -/

/-- An expression and its semicolon. -/
def closed (fuel : Nat) (make : Expr → Stmt) (cause : ParseCause) : Walk Stmt := do
  let e ← level tokens fuel .assignment
  let _ ← consume tokens .semicolon cause
  return make e

/-- A variable declaration behind its keyword. -/
def variableDeclaration (fuel : Nat) : Walk Stmt := do
  let name ← consume tokens .identifier .expectVariableName
  if ← accept tokens (· = .equal) then
    closed tokens fuel (fun e => .var name (some e)) .expectSemicolonAfterVariable
  else
    let _ ← consume tokens .semicolon .expectSemicolonAfterVariable
    return .var name none

/-- The loop that discards tokens after an error. -/
def skip : Nat → Walk Unit
  | 0 => throw .cutOff
  | fuel + 1 => do
    if ← isAtEnd tokens then return ()
    else if (← previous tokens).kind = .semicolon then return ()
    else if (← peek tokens).kind.startsStatement then return ()
    else
      let _ ← advance tokens
      skip fuel

def synchronize (fuel : Nat) : Walk Unit := do
  let _ ← advance tokens
  skip tokens fuel

/-- What a declaration does when its statement stops early. -/
def recover (fuel : Nat) : Stop → Walk (Option Stmt)
  | .syntaxError => do
    synchronize tokens fuel
    return none
  | stop => throw stop

/-- Records a declaration that began at the place `start`. -/
def noteDeclaration (start : Nat) : Walk Unit :=
  modify fun c => { c with declared := c.declared ++ [(start, c.current)] }

mutual

def declaration : Nat → Walk (Option Stmt)
  | 0 => throw .cutOff
  | fuel + 1 => do
    let start := (← get).current
    let stmt? ← tryCatch (do return some (← statement fuel)) (recover tokens fuel)
    noteDeclaration start
    return stmt?

def statement : Nat → Walk Stmt
  | 0 => throw .cutOff
  | fuel + 1 => do
    if ← accept tokens (· = .kwVar) then variableDeclaration tokens fuel
    else if ← accept tokens (· = .kwPrint) then
      closed tokens fuel .print .expectSemicolonAfterValue
    else if ← accept tokens (· = .leftBrace) then
      let statements ← block fuel []
      return .block statements
    else closed tokens fuel .expression .expectSemicolonAfterExpression

/-- The loop over the declarations of a block, and its closing brace. -/
def block : Nat → List Stmt → Walk (List Stmt)
  | 0, _ => throw .cutOff
  | fuel + 1, statements => do
    if ← check tokens (· = .rightBrace) <||> isAtEnd tokens then
      let _ ← consume tokens .rightBrace .expectRightBrace
      return statements
    else
      let stmt? ← declaration fuel
      block fuel (statements ++ stmt?.toList)

end

/-- The loop over the declarations of a program. -/
def program : Nat → List Stmt → Walk (List Stmt)
  | 0, _ => throw .cutOff
  | fuel + 1, statements => do
    if ← isAtEnd tokens then return statements
    else
      let stmt? ← declaration tokens fuel
      program fuel (statements ++ stmt?.toList)

end Walk

/-- The tokens with an end mark behind them, unless the last of them is one. -/
def markEnd (ts : List Token) : List Token :=
  match ts.getLast? with
  | none => [Token.endAt 1]
  | some t => if t.kind = .eof then ts else ts ++ [Token.endAt t.line]

/-- The walk over a list of tokens: the statements, unless it stops early, and the cursor as it is
left. No loop and no recursion in it is deeper than `fuel`. -/
def walk (fuel : Nat) (ts : List Token) : Except Stop (List Stmt) × Cursor :=
  (Walk.program (markEnd ts) fuel []).run.run {}

end LoxLang
