import LoxLang.Scope.Bindings

/-! # The chain of scopes

While a program runs, the scopes of the blocks that are open lie inside each other, and all inside
the global scope. A name means the binding in the innermost scope that has one. Blocks are left in
the reverse order of being entered, so the open scopes are a stack. -/

namespace LoxLang

/-- The open scopes: those of blocks, the innermost first, and the global one. -/
structure Chain where
  locals : List Bindings
  globals : Bindings
  deriving DecidableEq

namespace Chain

/-- No block is open, and nothing is defined. -/
def empty : Chain := ⟨[], []⟩

/-- Whether no block is open, so that the current scope is the global one. -/
def atGlobals (c : Chain) : Bool := c.locals.isEmpty

def get? (c : Chain) (name : String) : Option Value :=
  (c.locals ++ [c.globals]).findSome? (·.get? name)

/-- Rebinds a name in the innermost of the given scopes that binds it. -/
def assignIn? (name : String) (value : Value) : List Bindings → Option (List Bindings)
  | [] => none
  | b :: rest =>
    if b.has name then some (b.define name value :: rest)
    else (assignIn? name value rest).map (b :: ·)

/-- Rebinds a name in the innermost scope that binds it; it never declares one. -/
def assign? (c : Chain) (name : String) (value : Value) : Option Chain :=
  match assignIn? name value c.locals with
  | some locals => some { c with locals }
  | none =>
    if c.globals.has name then some { c with globals := c.globals.define name value } else none

/-- Binds a name in the current scope. -/
def define (c : Chain) (name : String) (value : Value) : Chain :=
  match c.locals with
  | [] => { c with globals := c.globals.define name value }
  | b :: rest => { c with locals := b.define name value :: rest }

/-- Opens the scope of a block. -/
def enter (c : Chain) : Chain := { c with locals := [] :: c.locals }

/-- Closes the innermost scope of a block. -/
def leave (c : Chain) : Chain := { c with locals := c.locals.tail }

@[simp]
theorem leave_enter (c : Chain) : c.enter.leave = c := rfl

/-- A scope without bindings hides nothing. -/
@[simp]
theorem get?_enter (c : Chain) (name : String) : c.enter.get? name = c.get? name := rfl

end Chain
end LoxLang
