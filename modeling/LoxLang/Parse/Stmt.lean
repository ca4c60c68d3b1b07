import LoxLang.Parse.Expr

/-! # Reading statements, and recovering from errors

A declaration in which the reader gets stuck is left out of the tree. Reading resumes behind the
next semicolon or in front of the next keyword that begins a statement, so that one pass finds
errors in several declarations. A block that never ends is stuck at the end of the program, and so
is left out as a whole. -/

namespace LoxLang

/-- The tokens from which to resume, where `previous` is the token just discarded: reading goes on
behind a semicolon or at a keyword that begins a statement. -/
def resumeBehind (previous : Token) : List Token → List Token
  | [] => []
  | t :: rest =>
    if previous.kind = .semicolon ∨ t.kind.startsStatement = true then t :: rest
    else resumeBehind t rest

/-- Discards tokens up to the place where reading resumes, at least one if there is any. -/
def resume : List Token → List Token
  | [] => []
  | t :: rest => resumeBehind t rest

theorem length_resumeBehind_le (previous : Token) (ts : List Token) :
    (resumeBehind previous ts).length ≤ ts.length := by
  fun_induction resumeBehind previous ts with
  | case1 => exact Nat.le_refl _
  | case2 => exact Nat.le_refl _
  | case3 _ _ _ _ ih => exact Nat.le_succ_of_le ih

theorem length_resume_lt {n : Nat} {ts : List Token} (h : ts.length ≤ n) (hn : 0 < n) :
    (resume ts).length < n := by
  cases ts with
  | nil => exact hn
  | cons t rest => exact Nat.lt_of_le_of_lt (length_resumeBehind_le t rest) h

/-- Reads the semicolon behind what was read. -/
def closeStatement {n : Nat} (last : Token) (cause : ParseCause) (stmt : Stmt)
    (rest : List Token) (h : rest.length < n) : Bounded n Stmt :=
  ((expect last .semicolon cause rest).below h).bind fun _ rest h => .done stmt rest h

/-- Reads a variable declaration behind its keyword. -/
def readVariable (last : Token) (ts : List Token) : Bounded ts.length Stmt :=
  (expect last .identifier .expectVariableName ts).bind fun name rest h =>
    match rest, h with
    | [], h => closeStatement last .expectSemicolonAfterVariable (.var name none) [] h
    | t :: rest, h =>
      if t.kind = .equal then
        have hrest := length_lt_of_cons h
        ((readExpr last rest).below hrest).bind fun initializer rest h =>
          closeStatement last .expectSemicolonAfterVariable (.var name (some initializer)) rest h
      else closeStatement last .expectSemicolonAfterVariable (.var name none) (t :: rest) h

/-- Reads the value of a print statement, behind its keyword. -/
def readPrint (last : Token) (ts : List Token) : Bounded ts.length Stmt :=
  (readExpr last ts).bind fun expr rest h =>
    closeStatement last .expectSemicolonAfterValue (.print expr) rest h

def readExpression (last : Token) (ts : List Token) : Bounded ts.length Stmt :=
  (readExpr last ts).bind fun expr rest h =>
    closeStatement last .expectSemicolonAfterExpression (.expression expr) rest h

/-- What came of a declaration: the statement unless it is wrong, the tokens from which to go on,
and the errors in it. -/
structure Declaration where
  stmt? : Option Stmt
  rest : List Token
  errors : List ParseError

/-- A declaration that could not be read is left out, and its remaining tokens are skipped. -/
def Declaration.ofReading : Reading Stmt → Declaration
  | .done stmt rest errors => ⟨some stmt, rest, errors⟩
  | .stuck rest errors => ⟨none, resume rest, errors⟩

theorem Declaration.length_rest_ofReading_lt {n : Nat} (hn : 0 < n) {r : Reading Stmt}
    (h : r.Within n) : (ofReading r).rest.length < n := by
  cases r with
  | done stmt rest errors => exact h
  | stuck rest errors => exact length_resume_lt h hn

/-- A declaration takes at least one token, whether it is read or left out. -/
def Declaration.ofBounded {t : Token} {ts : List Token} (r : Bounded (t :: ts).length Stmt) :
    { d : Declaration // d.rest.length < (t :: ts).length } :=
  ⟨.ofReading r.reading, Declaration.length_rest_ofReading_lt (Nat.succ_pos _) r.within⟩

mutual

/-- Reads a declaration off the list `t :: ts`. -/
def readDeclaration (last : Token) (t : Token) (ts : List Token) :
    { d : Declaration // d.rest.length < (t :: ts).length } :=
  have h := length_lt_cons t ts
  Declaration.ofBounded <|
    if t.kind = .kwVar then (readVariable last ts).below h
    else if t.kind = .kwPrint then (readPrint last ts).below h
    else if t.kind = .leftBrace then
      ((readBlock last ts).below h).bind fun statements rest h => .done (.block statements) rest h
    else readExpression last (t :: ts)
termination_by (ts.length, 1)

/-- Reads declarations up to the closing brace of a block. -/
def readBlock (last : Token) (ts : List Token) : Bounded ts.length (List Stmt) :=
  match ts with
  | [] => .stuck last .expectRightBrace []
  | t :: rest =>
    if t.kind = .rightBrace then .done [] rest (length_lt_cons t rest)
    else
      let ⟨d, hd⟩ := readDeclaration last t rest
      let r := (readBlock last d.rest).bind fun statements rest h =>
        .done (d.stmt?.toList ++ statements) rest h
      (r.after d.errors).below hd
termination_by (ts.length, 0)

end

/-- The statements of a program, and its syntax errors in the order of their finding. -/
structure Parsed where
  statements : List Stmt
  errors : List ParseError

/-- Reads declarations up to the end of the list. -/
def readProgram (last : Token) (ts : List Token) : Parsed :=
  match ts with
  | [] => ⟨[], []⟩
  | t :: rest =>
    let ⟨d, _hd⟩ := readDeclaration last t rest
    let others := readProgram last d.rest
    ⟨d.stmt?.toList ++ others.statements, d.errors ++ others.errors⟩
termination_by ts.length
decreasing_by exact _hd

/-- The end mark of a token list: the first one in it, or one on the line of the last token; of no
token at all, on the first line. -/
def endMark (ts : List Token) : Token :=
  (ts.find? (·.kind = .eof)).getD (Token.endAt ((ts.getLast?.map Token.line).getD 1))

/-- Parses a list of tokens, up to the first end mark in it. -/
def parse (ts : List Token) : Parsed :=
  readProgram (endMark ts) (ts.takeWhile (·.kind ≠ .eof))

end LoxLang
