import LoxLang.Proofs.Lines.Basic
import LoxLang.Proofs.Machine.Renaming

/-! # Execution does not depend on lines

The machine reads the kinds and the lexemes of tokens, and copies whole tokens only into failures. So
a program on other lines does the same, and fails where it fails at the same token on its other line
(`Chain.run_reline`). -/

namespace LoxLang

variable (line : Token → Int)

/-! ## Operations -/

theorem add_reline (operator : Token) (left right : Value) :
    add (operator.reline line) left right =
      (add operator left right).mapError (Failure.reline line) := by
  unfold add
  split <;> rfl

theorem arithmetic_reline (operator : Token) (x y : Number) :
    arithmetic (operator.reline line) x y =
      (arithmetic operator x y).mapError (Failure.reline line) := by
  unfold arithmetic
  rw [Token.kind_reline]
  split
  · rfl
  · rfl
  · split <;> rfl
  all_goals rfl

theorem applyBinary_reline (operator : Token) (left right : Value) :
    applyBinary (operator.reline line) left right =
      (applyBinary operator left right).mapError (Failure.reline line) := by
  unfold applyBinary
  rw [Token.kind_reline]
  split
  · exact add_reline line operator left right
  · rfl
  · rfl
  · split
    · exact arithmetic_reline line operator _ _
    · rfl

theorem applyUnary_reline (operator : Token) (right : Value) :
    applyUnary (operator.reline line) right =
      (applyUnary operator right).mapError (Failure.reline line) := by
  unfold applyUnary
  rw [Token.kind_reline]
  split
  · rfl
  · split <;> rfl

/-! ## Steps -/

namespace Exec

variable {α : Type}

theorem ofExcept_mapError (rename : Failure → Failure) (r : Except Failure α) :
    ofExcept (r.mapError rename) = renameFailure rename (ofExcept r) := by
  cases r <;> rfl

theorem getVariable_reline (name : Token) :
    getVariable (name.reline line) = renameFailure (Failure.reline line) (getVariable name) := by
  funext m
  rw [renameFailure, getVariable_apply, getVariable_apply, Token.lexeme_reline]
  cases m.scopes.get? name.lexeme <;> rfl

theorem setVariable_reline (name : Token) (value : Value) :
    setVariable (name.reline line) value =
      renameFailure (Failure.reline line) (setVariable name value) := by
  funext m
  rw [renameFailure, setVariable_apply, setVariable_apply, Token.lexeme_reline]
  cases m.scopes.assign? name.lexeme value <;> rfl

theorem inScope_renameFailure (rename : Failure → Failure) (body : Exec Unit) :
    inScope (renameFailure rename body) = renameFailure rename (inScope body) := by
  funext m
  simp only [inScope, renameFailure]
  cases body { m with scopes := m.scopes.enter } <;> rfl

end Exec

/-! ## Trees -/

theorem Expr.eval_reline (e : Expr) :
    (e.reline line).toNode.eval = renameFailure (Failure.reline line) e.toNode.eval := by
  induction e with
  | assign name value ih =>
    rw [reline, toNode, Node.eval, toNode, Node.eval, ih, renameFailure_bind]
    refine congrArg _ (funext fun v => ?_)
    rw [Exec.setVariable_reline, renameFailure_bind]
    rfl
  | binary left operator right ihleft ihright =>
    rw [reline, toNode, Node.eval, toNode, Node.eval, ihleft, renameFailure_bind]
    refine congrArg _ (funext fun l => ?_)
    rw [ihright, renameFailure_bind]
    refine congrArg _ (funext fun r => ?_)
    rw [applyBinary_reline, Exec.ofExcept_mapError]
  | grouping inner ih => exact ih
  | literal value => rfl
  | unary operator right ih =>
    rw [reline, toNode, Node.eval, toNode, Node.eval, ih, renameFailure_bind]
    refine congrArg _ (funext fun r => ?_)
    rw [applyUnary_reline, Exec.ofExcept_mapError]
  | «variable» name => exact Exec.getVariable_reline line name

mutual

theorem Stmt.exec_reline : (s : Stmt) →
    (s.reline line).toNode.exec = renameFailure (Failure.reline line) s.toNode.exec
  | .block ss => by
    rw [Stmt.reline, Stmt.toNode, Node.exec, Stmt.execAll_reline ss, Exec.inScope_renameFailure,
      Stmt.toNode, Node.exec]
  | .expression e => by
    rw [Stmt.reline, Stmt.toNode, Node.exec, e.eval_reline, Stmt.toNode, Node.exec,
      renameFailure_bind]
    rfl
  | .print e => by
    rw [Stmt.reline, Stmt.toNode, Node.exec, e.eval_reline, Stmt.toNode, Node.exec,
      renameFailure_bind]
    rfl
  | .var name none => rfl
  | .var name (some e) => by
    rw [Stmt.reline, Option.map_some, Stmt.toNode, Option.elim_some, Node.exec,
      Expr.initialValue_toNode, e.eval_reline, Stmt.toNode, Option.elim_some, Node.exec,
      Expr.initialValue_toNode, renameFailure_bind]
    rfl

theorem Stmt.execAll_reline : (ss : List Stmt) →
    Node.execAll (Stmt.toNodes (Stmt.relineAll line ss)) =
      renameFailure (Failure.reline line) (Node.execAll (Stmt.toNodes ss))
  | [] => rfl
  | s :: ss => by
    rw [Stmt.relineAll, Stmt.toNodes, Node.execAll, Stmt.exec_reline s, Stmt.execAll_reline ss,
      Stmt.toNodes, Node.execAll, renameFailure_bind]

end

/-- A program on other lines does the same, and fails at the same token, on its other line. -/
theorem Chain.run_reline (scopes : Chain) (ss : List Stmt) :
    scopes.run (Stmt.toNodes (Stmt.relineAll line ss)) =
      ((scopes.run (Stmt.toNodes ss)).1,
        (scopes.run (Stmt.toNodes ss)).2.map (Failure.reline line)) := by
  unfold run
  rw [Stmt.execAll_reline, renameFailure]
  cases Node.execAll (Stmt.toNodes ss) ⟨scopes, []⟩ <;> rfl

end LoxLang
