import LoxLang.Parse.Stmt

/-! # The rules of the readers

The readers carry bounds that make them terminate. Here they are stated without the bounds: each
reader by the readings it is made of, put together by `Reading.bind`. -/

namespace LoxLang

namespace Reading

variable {α β : Type}

@[simp]
theorem after_nil (r : Reading α) : r.after [] = r := by
  cases r <;> rfl

@[simp]
theorem after_after (r : Reading α) (es fs : List ParseError) :
    (r.after fs).after es = r.after (es ++ fs) := by
  cases r <;> simp [after]

@[simp]
theorem bind_done (value : α) (rest : List Token) (es : List ParseError)
    (next : α → List Token → Reading β) :
    (done value rest es).bind next = (next value rest).after es :=
  rfl

@[simp]
theorem bind_stuck (rest : List Token) (es : List ParseError)
    (next : α → List Token → Reading β) : (stuck rest es).bind next = stuck rest es :=
  rfl

theorem bind_after (r : Reading α) (es : List ParseError) (next : α → List Token → Reading β) :
    (r.after es).bind next = (r.bind next).after es := by
  cases r with
  | done value rest errors => exact (after_after _ es errors).symm
  | stuck rest errors => rfl

end Reading

namespace Bounded

variable {α β : Type} {m n : Nat}

@[simp]
theorem reading_done (value : α) (rest : List Token) (h : rest.length < n) :
    (done value rest h).reading = .done value rest [] :=
  rfl

@[simp]
theorem reading_doneWith (value : α) (rest : List Token) (h : rest.length < n) (e : ParseError) :
    (doneWith value rest h e).reading = .done value rest [e] :=
  rfl

@[simp]
theorem reading_stuck (last : Token) (cause : ParseCause) (ts : List Token) :
    (stuck last cause ts : Bounded ts.length α).reading = .stuck ts [⟨cause, ts.headD last⟩] :=
  rfl

@[simp]
theorem reading_weaken (r : Bounded m α) (h : m ≤ n) : (r.weaken h).reading = r.reading :=
  rfl

@[simp]
theorem reading_below (r : Bounded m α) (h : m < n) : (r.below h).reading = r.reading :=
  rfl

@[simp]
theorem reading_after (r : Bounded n α) (es : List ParseError) :
    (r.after es).reading = r.reading.after es :=
  rfl

/-- Going on does not depend on the bounds. -/
theorem reading_bind {r : Bounded n α}
    {next : α → (rest : List Token) → rest.length < n → Bounded n β}
    {plain : α → List Token → Reading β}
    (h : ∀ value rest hrest, (next value rest hrest).reading = plain value rest) :
    (r.bind next).reading = r.reading.bind plain := by
  obtain ⟨r, hr⟩ := r
  cases r with
  | done value rest errors => exact congrArg (Reading.after errors) (h value rest hr)
  | stuck rest errors => rfl

end Bounded

theorem reading_expect_nil (last : Token) (kind : Kind) (cause : ParseCause) :
    (expect last kind cause []).reading = .stuck [] [⟨cause, last⟩] :=
  rfl

theorem reading_expect_cons (last : Token) (kind : Kind) (cause : ParseCause) (t : Token)
    (rest : List Token) :
    (expect last kind cause (t :: rest)).reading =
      if t.kind = kind then .done t rest [] else .stuck (t :: rest) [⟨cause, t⟩] := by
  rw [expect]
  split <;> rfl

/-! ## Expressions -/

/-- An assignment is read as an equality, and then as the value behind an equals sign. -/
theorem reading_readLevel_assignment (last : Token) (ts : List Token) :
    (readLevel last .assignment ts).reading =
      (readLevel last .equality ts).reading.bind fun target rest =>
        match rest with
        | [] => .done target [] []
        | t :: rest =>
          if t.kind = .equal then
            (readLevel last .assignment rest).reading.bind fun value rest =>
              match target with
              | .variable name => .done (.assign name value) rest []
              | _ => .done target rest [⟨.invalidTarget, t⟩]
          else .done target (t :: rest) [] := by
  rw [readLevel]
  refine Bounded.reading_bind fun target rest h => ?_
  cases rest with
  | nil => rfl
  | cons t rest =>
    dsimp only
    split
    · refine Bounded.reading_bind fun value rest h => ?_
      cases target <;> rfl
    · rfl

/-- The levels of binary operators. -/
def Level.isBinary : Level → Bool
  | .equality | .comparison | .term | .factor => true
  | .assignment | .unary | .primary => false

/-- A level of binary operators is read as an operand and what follows it. -/
theorem reading_readLevel_binary (last : Token) {level : Level} (h : level.isBinary = true)
    (ts : List Token) :
    (readLevel last level ts).reading =
      (readLevel last level.operand ts).reading.bind fun left rest =>
        (readMore last level left rest).reading := by
  cases level with
  | equality | comparison | term | factor =>
    rw [readLevel]
    exact Bounded.reading_bind fun _ _ _ => rfl
  | assignment | unary | primary => cases h

theorem reading_readMore_nil (last : Token) (level : Level) (left : Expr) :
    (readMore last level left []).reading = .done left [] [] := by
  rw [readMore]
  rfl

/-- As long as an operator of the level follows, an operand is read and folded to the left. -/
theorem reading_readMore_cons (last : Token) (level : Level) (left : Expr) (t : Token)
    (rest : List Token) :
    (readMore last level left (t :: rest)).reading =
      if level.hasOperator t.kind then
        (readLevel last level.operand rest).reading.bind fun right rest =>
          (readMore last level (.binary left t right) rest).reading
      else .done left (t :: rest) [] := by
  rw [readMore]
  split
  · exact Bounded.reading_bind (n := rest.length + 1) fun _ _ _ => rfl
  · rfl

theorem reading_readLevel_unary_nil (last : Token) :
    (readLevel last .unary []).reading = (readLevel last .primary []).reading := by
  rw [readLevel]

/-- A unary expression is an operator and a unary expression, or a primary expression. -/
theorem reading_readLevel_unary_cons (last : Token) (t : Token) (rest : List Token) :
    (readLevel last .unary (t :: rest)).reading =
      if Level.unary.hasOperator t.kind then
        (readLevel last .unary rest).reading.bind fun right rest => .done (.unary t right) rest []
      else (readLevel last .primary (t :: rest)).reading := by
  rw [readLevel]
  split
  · exact Bounded.reading_bind fun _ _ _ => rfl
  · rfl

theorem reading_readLevel_primary_nil (last : Token) :
    (readLevel last .primary []).reading = .stuck [] [⟨.expectExpression, last⟩] := by
  rw [readLevel]
  rfl

/-- A primary expression is a token on its own, or an expression in parentheses. -/
theorem reading_readLevel_primary_cons (last : Token) (t : Token) (rest : List Token) :
    (readLevel last .primary (t :: rest)).reading =
      match t.atom? with
      | some expr => .done expr rest []
      | none =>
        if t.kind = .leftParen then
          (readLevel last .assignment rest).reading.bind fun inner rest =>
            (expect last .rightParen .expectRightParen rest).reading.bind fun _ rest =>
              .done (.grouping inner) rest []
        else .stuck (t :: rest) [⟨.expectExpression, t⟩] := by
  conv => lhs; rw [readLevel]
  cases t.atom? with
  | some expr => rfl
  | none =>
    dsimp only
    split
    · refine Bounded.reading_bind fun inner rest h => ?_
      exact Bounded.reading_bind fun _ _ _ => rfl
    · rfl

/-! ## Statements -/

theorem reading_closeStatement {n : Nat} (last : Token) (cause : ParseCause) (stmt : Stmt)
    (rest : List Token) (h : rest.length < n) :
    (closeStatement last cause stmt rest h).reading =
      (expect last .semicolon cause rest).reading.bind fun _ rest => .done stmt rest [] :=
  Bounded.reading_bind fun _ _ _ => rfl

theorem reading_readPrint (last : Token) (ts : List Token) :
    (readPrint last ts).reading =
      (readLevel last .assignment ts).reading.bind fun expr rest =>
        (expect last .semicolon .expectSemicolonAfterValue rest).reading.bind fun _ rest =>
          .done (.print expr) rest [] :=
  Bounded.reading_bind fun _ _ _ => reading_closeStatement ..

theorem reading_readExpression (last : Token) (ts : List Token) :
    (readExpression last ts).reading =
      (readLevel last .assignment ts).reading.bind fun expr rest =>
        (expect last .semicolon .expectSemicolonAfterExpression rest).reading.bind fun _ rest =>
          .done (.expression expr) rest [] :=
  Bounded.reading_bind fun _ _ _ => reading_closeStatement ..

/-- A variable declaration is a name, possibly a value behind an equals sign, and a semicolon. -/
theorem reading_readVariable (last : Token) (ts : List Token) :
    (readVariable last ts).reading =
      (expect last .identifier .expectVariableName ts).reading.bind fun name rest =>
        let close (initializer : Option Expr) (rest : List Token) : Reading Stmt :=
          (expect last .semicolon .expectSemicolonAfterVariable rest).reading.bind fun _ rest =>
            .done (.var name initializer) rest []
        match rest with
        | [] => close none []
        | t :: rest =>
          if t.kind = .equal then
            (readLevel last .assignment rest).reading.bind fun initializer rest =>
              close (some initializer) rest
          else close none (t :: rest) := by
  refine Bounded.reading_bind fun name rest h => ?_
  cases rest with
  | nil => exact reading_closeStatement ..
  | cons t rest =>
    dsimp only
    split
    · exact Bounded.reading_bind fun _ _ _ => reading_closeStatement ..
    · exact reading_closeStatement ..

/-- A declaration is decided by its first token. -/
theorem readDeclaration_val (last : Token) (t : Token) (ts : List Token) :
    (readDeclaration last t ts).1 = .ofReading
      (if t.kind = .kwVar then (readVariable last ts).reading
      else if t.kind = .kwPrint then (readPrint last ts).reading
      else if t.kind = .leftBrace then
        (readBlock last ts).reading.bind fun statements rest => .done (.block statements) rest []
      else (readExpression last (t :: ts)).reading) := by
  rw [readDeclaration]
  refine congrArg Declaration.ofReading ?_
  split
  · rfl
  · split
    · rfl
    · split
      · exact Bounded.reading_bind fun _ _ _ => rfl
      · rfl

theorem reading_readBlock_nil (last : Token) :
    (readBlock last []).reading = .stuck [] [⟨.expectRightBrace, last⟩] := by
  rw [readBlock]
  rfl

/-- A block is read declaration by declaration up to its closing brace. -/
theorem reading_readBlock_cons (last : Token) (t : Token) (rest : List Token) :
    (readBlock last (t :: rest)).reading =
      if t.kind = .rightBrace then .done [] rest []
      else
        let d := (readDeclaration last t rest).1
        ((readBlock last d.rest).reading.bind fun statements rest =>
          .done (d.stmt?.toList ++ statements) rest []).after d.errors := by
  rw [readBlock]
  split
  · rfl
  · exact congrArg (Reading.after _) (Bounded.reading_bind fun _ _ _ => rfl)

theorem readProgram_nil (last : Token) : readProgram last [] = ⟨[], []⟩ := by
  rw [readProgram]

/-- A program is read declaration by declaration. -/
theorem readProgram_cons (last : Token) (t : Token) (rest : List Token) :
    readProgram last (t :: rest) =
      let d := (readDeclaration last t rest).1
      let others := readProgram last d.rest
      ⟨d.stmt?.toList ++ others.statements, d.errors ++ others.errors⟩ := by
  rw [readProgram]

end LoxLang
