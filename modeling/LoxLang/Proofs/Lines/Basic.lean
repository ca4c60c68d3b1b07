import LoxLang.Log.Fault

/-! # Changing lines

`reline line` gives every token in a tree, an error or a failure a new line, which may depend on the
token, and changes nothing else. The special case in which all lines move by the same amount is
`shift`; `unlined` puts a token on the first line. -/

namespace LoxLang

namespace Token

/-- The token on another line. -/
def reline (line : Token → Int) (t : Token) : Token := { t with line := line t }

variable (line : Token → Int) (t : Token)

@[simp]
theorem kind_reline : (t.reline line).kind = t.kind :=
  rfl

@[simp]
theorem lexeme_reline : (t.reline line).lexeme = t.lexeme :=
  rfl

@[simp]
theorem literal_reline : (t.reline line).literal = t.literal :=
  rfl

/-- The token some lines further down. -/
def shift (lines : Int) : Token → Token := reline fun t => t.line + lines

/-- The token on the first line. -/
def unlined : Token → Token := reline fun _ => 1

end Token

def Expr.reline (line : Token → Int) : Expr → Expr
  | .assign name value => .assign (name.reline line) (value.reline line)
  | .binary left operator right =>
    .binary (left.reline line) (operator.reline line) (right.reline line)
  | .grouping inner => .grouping (inner.reline line)
  | .literal value => .literal value
  | .unary operator right => .unary (operator.reline line) (right.reline line)
  | .variable name => .variable (name.reline line)

mutual

def Stmt.reline (line : Token → Int) : Stmt → Stmt
  | .block statements => .block (Stmt.relineAll line statements)
  | .expression expr => .expression (expr.reline line)
  | .print expr => .print (expr.reline line)
  | .var name initializer => .var (name.reline line) (initializer.map (Expr.reline line))

def Stmt.relineAll (line : Token → Int) : List Stmt → List Stmt
  | [] => []
  | s :: rest => s.reline line :: Stmt.relineAll line rest

end

def ParseError.reline (line : Token → Int) (e : ParseError) : ParseError :=
  { e with token := e.token.reline line }

def RuntimeError.reline (line : Token → Int) (e : RuntimeError) : RuntimeError :=
  { e with token := e.token.reline line }

def TokenError.reline (line : Token → Int) (e : TokenError) : TokenError :=
  { e with token := e.token.reline line }

def Failure.reline (line : Token → Int) : Failure → Failure
  | .runtime e => .runtime (e.reline line)
  | .misplaced m => .misplaced m
  | .noOperation operator => .noOperation (operator.reline line)

def LexError.shift (lines : Int) (e : LexError) : LexError := { e with line := e.line + lines }

def Report.shift (lines : Int) (r : Report) : Report := { r with line := r.line + lines }

def TokenError.shift (lines : Int) : TokenError → TokenError := reline fun t => t.line + lines

end LoxLang
