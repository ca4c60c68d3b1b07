import LoxLang.Proofs.Machine.Renaming
import LoxLang.Proofs.Machine.Safety
import LoxLang.Proofs.Tree.Sexp

/-! # The order of execution

The execution of an unchecked tree visits its nodes in a fixed order, the operands of a node in
front of the node itself (`Node.execVisits`); a node that does not fit its place is visited without
what is inside it. An execution that ends well has made every visit, and an execution that fails has
made every visit up to the one that failed (`Exec.Follows`). So a tree with a misplaced node never
executes, and it fails at the first such node at the latest (`exec_skips_no_node`). -/

namespace LoxLang

/-! ## Trees with every node in its place -/

/-- The node is an expression, and so is everything inside it. -/
def Node.IsExpr (node : Node) : Prop := ∃ e : Expr, e.toNode = node

/-- The node is a statement, with statements and expressions inside it where they belong. -/
def Node.IsStmt (node : Node) : Prop := ∃ s : Stmt, s.toNode = node

/-- The node is of one of the known variants of expressions. -/
def Node.hasExprClass : Node → Bool
  | .assign .. | .binary .. | .grouping .. | .literal .. | .unary .. | .variable .. => true
  | _ => false

/-- The node is of one of the known variants of statements. -/
def Node.hasStmtClass : Node → Bool
  | .block .. | .expression .. | .print .. | .var .. => true
  | _ => false

/-- A node, and what is done with it. -/
structure Visit where
  task : Task
  node : Node

/-- The node's class is one that the task can be done with. -/
def Visit.Fits : Visit → Prop
  | ⟨.execute, node⟩ => node.hasStmtClass
  | ⟨.evaluate, node⟩ => node.hasExprClass
  | ⟨.print, node⟩ => node.hasStmtClass ∨ node.hasExprClass

namespace Node

/-- The visits of an evaluation, in order. -/
def evalVisits : Node → List Visit
  | .assign name value => value.evalVisits ++ [⟨.evaluate, .assign name value⟩]
  | .binary left operator right =>
    left.evalVisits ++ (right.evalVisits ++ [⟨.evaluate, .binary left operator right⟩])
  | .grouping inner => inner.evalVisits ++ [⟨.evaluate, .grouping inner⟩]
  | .unary operator right => right.evalVisits ++ [⟨.evaluate, .unary operator right⟩]
  | node => [⟨.evaluate, node⟩]

/-- The visits for the value of an initializer, in order: none if there is nothing in its place. -/
def initialVisits : Node → List Visit
  | .absent => []
  | node => node.evalVisits

mutual

/-- The visits of an execution, in order. -/
def execVisits : Node → List Visit
  | .block statements => execVisitsAll statements ++ [⟨.execute, .block statements⟩]
  | .expression expr => expr.evalVisits ++ [⟨.execute, .expression expr⟩]
  | .print expr => expr.evalVisits ++ [⟨.execute, .print expr⟩]
  | .var name initializer => initializer.initialVisits ++ [⟨.execute, .var name initializer⟩]
  | node => [⟨.execute, node⟩]

def execVisitsAll : List Node → List Visit
  | [] => []
  | node :: rest => node.execVisits ++ execVisitsAll rest

end

theorem isExpr_of_fits : (node : Node) → (∀ v ∈ node.evalVisits, v.Fits) → node.IsExpr
  | .assign name value, h => by
    obtain ⟨e, rfl⟩ := value.isExpr_of_fits (List.forall_mem_append.mp h).1
    exact ⟨.assign name e, rfl⟩
  | .binary left operator right, h => by
    obtain ⟨hleft, h⟩ := List.forall_mem_append.mp h
    obtain ⟨l, rfl⟩ := left.isExpr_of_fits hleft
    obtain ⟨r, rfl⟩ := right.isExpr_of_fits (List.forall_mem_append.mp h).1
    exact ⟨.binary l operator r, rfl⟩
  | .grouping inner, h => by
    obtain ⟨e, rfl⟩ := inner.isExpr_of_fits (List.forall_mem_append.mp h).1
    exact ⟨.grouping e, rfl⟩
  | .unary operator right, h => by
    obtain ⟨e, rfl⟩ := right.isExpr_of_fits (List.forall_mem_append.mp h).1
    exact ⟨.unary operator e, rfl⟩
  | .literal value, _ => ⟨.literal value, rfl⟩
  | .variable name, _ => ⟨.variable name, rfl⟩
  | .block _, h | .expression _, h | .print _, h | .var _ _, h | .unknownExpr, h
  | .unknownStmt, h | .text _, h | .absent, h => nomatch h _ (.head _)

theorem absent_or_isExpr_of_fits (node : Node) (h : ∀ v ∈ node.initialVisits, v.Fits) :
    node = .absent ∨ node.IsExpr := by
  unfold initialVisits at h
  split at h
  · exact .inl rfl
  · exact .inr (node.isExpr_of_fits h)

mutual

theorem isStmt_of_fits : (node : Node) → (∀ v ∈ node.execVisits, v.Fits) → node.IsStmt
  | .block statements, h => by
    obtain ⟨ss, rfl⟩ := areStmts_of_fits statements (List.forall_mem_append.mp h).1
    exact ⟨.block ss, rfl⟩
  | .expression expr, h => by
    obtain ⟨e, rfl⟩ := expr.isExpr_of_fits (List.forall_mem_append.mp h).1
    exact ⟨.expression e, rfl⟩
  | .print expr, h => by
    obtain ⟨e, rfl⟩ := expr.isExpr_of_fits (List.forall_mem_append.mp h).1
    exact ⟨.print e, rfl⟩
  | .var name initializer, h => by
    rcases initializer.absent_or_isExpr_of_fits (List.forall_mem_append.mp h).1 with rfl | ⟨e, rfl⟩
    · exact ⟨.var name none, rfl⟩
    · exact ⟨.var name (some e), rfl⟩
  | .assign _ _, h | .binary _ _ _, h | .grouping _, h | .literal _, h | .unary _ _, h
  | .variable _, h | .unknownExpr, h | .unknownStmt, h | .text _, h | .absent, h =>
    nomatch h _ (.head _)

theorem areStmts_of_fits : (nodes : List Node) → (∀ v ∈ execVisitsAll nodes, v.Fits) →
    ∃ ss : List Stmt, Stmt.toNodes ss = nodes
  | [], _ => ⟨[], rfl⟩
  | node :: rest, h => by
    obtain ⟨hnode, hrest⟩ := List.forall_mem_append.mp h
    obtain ⟨s, rfl⟩ := isStmt_of_fits node hnode
    obtain ⟨ss, rfl⟩ := areStmts_of_fits rest hrest
    exact ⟨s :: ss, rfl⟩

end

theorem IsExpr.exists_render {node : Node} (h : node.IsExpr) : ∃ text, node.render = .ok text := by
  obtain ⟨e, rfl⟩ := h
  exact ⟨_, e.render_toNode⟩

theorem IsStmt.exists_render {node : Node} (h : node.IsStmt) : ∃ text, node.render = .ok text := by
  obtain ⟨s, rfl⟩ := h
  exact ⟨_, s.render_toNode⟩

end Node

/-! ## Failures at a node -/

/-- The failures that a node of some variant of expressions can raise itself, once its operands
have values. -/
inductive Node.Raises : Node → Failure → Prop
  | assign (name : Token) (value : Node) :
    Raises (.assign name value) (.runtime ⟨.undefinedVariable, name⟩)
  | variable (name : Token) : Raises (.variable name) (.runtime ⟨.undefinedVariable, name⟩)
  | unary {operator : Token} (right : Node) : operator.kind ≠ .bang →
    Raises (.unary operator right) (.runtime ⟨.operandNotNumber, operator⟩)
  | add {operator : Token} (left right : Node) : operator.kind = .plus →
    Raises (.binary left operator right) (.runtime ⟨.operandsNotAddable, operator⟩)
  | numeric {operator : Token} (left right : Node) :
    operator.kind ∉ [.plus, .equalEqual, .bangEqual] →
    Raises (.binary left operator right) (.runtime ⟨.operandsNotNumbers, operator⟩)
  | divide {operator : Token} (left right : Node) : operator.kind = .slash →
    Raises (.binary left operator right) (.runtime ⟨.divisionByZero, operator⟩)
  | noOperation {operator : Token} (left right : Node) : operator.kind.isBinaryOperator = false →
    Raises (.binary left operator right) (.noOperation operator)

theorem add_raises {operator : Token} {l r : Value} {f : Failure} (hop : operator.kind = .plus)
    (h : add operator l r = .error f) (left right : Node) :
    (Node.binary left operator right).Raises f := by
  unfold add at h
  split at h <;> cases h
  exact .add left right hop

theorem arithmetic_raises {operator : Token} {x y : Number} {f : Failure}
    (hop : operator.kind ∉ [.plus, .equalEqual, .bangEqual])
    (h : arithmetic operator x y = .error f) (left right : Node) :
    (Node.binary left operator right).Raises f := by
  unfold arithmetic at h
  split at h
  case h_3 hslash =>
    split at h <;> cases h
    exact .divide left right hslash
  case h_8 =>
    cases h
    refine .noOperation left right ?_
    unfold Kind.isBinaryOperator
    split <;> simp_all
  all_goals cases h

theorem applyBinary_raises {operator : Token} {l r : Value} {f : Failure}
    (h : applyBinary operator l r = .error f) (left right : Node) :
    (Node.binary left operator right).Raises f := by
  unfold applyBinary at h
  split at h
  · next hplus => exact add_raises hplus h left right
  · cases h
  · cases h
  · next hplus hequal hbang =>
    have hop : operator.kind ∉ [.plus, .equalEqual, .bangEqual] := by simp_all
    split at h
    · exact arithmetic_raises hop h left right
    · cases h
      exact .numeric left right hop

theorem applyUnary_raises {operator : Token} {r : Value} {f : Failure}
    (h : applyUnary operator r = .error f) (right : Node) :
    (Node.unary operator right).Raises f := by
  unfold applyUnary at h
  split at h
  · cases h
  · next hbang =>
    split at h <;> cases h
    exact .unary right hbang

/-! ## Steps that follow the order -/

/-- The visit fails: the node does not fit, or it raises the failure itself. -/
def Visit.FailsWith (v : Visit) (f : Failure) : Prop :=
  (¬ v.Fits ∧ f = .misplaced (.of v.task v.node)) ∨ (v.Fits ∧ v.node.Raises f)

namespace Exec

variable {α β : Type} {visits later : List Visit} {v : Visit}

/-- The step makes the visits one after the other. If it ends well then all of them fitted, and if
it fails then by one of them, with nothing misplaced in front of it. -/
structure Follows (visits : List Visit) (x : Exec α) : Prop where
  fits : ∀ m a m', x m = .ok a m' → ∀ v ∈ visits, v.Fits
  fails : ∀ m f m', x m = .error f m' → ∃ before v after, visits = before ++ v :: after ∧
    (∀ u ∈ before, u.Fits) ∧ v.FailsWith f

namespace Follows

theorem pure (a : α) : Follows [] (Pure.pure a : Exec α) where
  fits _ _ _ _ := List.forall_mem_nil _
  fails := by
    rintro m f m' ⟨⟩

theorem bind {x : Exec α} {next : α → Exec β} (hx : Follows visits x)
    (hnext : ∀ a, Follows later (next a)) : Follows (visits ++ later) (x >>= next) where
  fits m b m' h := by
    cases hread : x m with
    | ok a m₁ =>
      rw [bind_apply_of_ok hread] at h
      exact List.forall_mem_append.mpr ⟨hx.fits m a m₁ hread, (hnext a).fits m₁ b m' h⟩
    | error f m₁ =>
      rw [bind_apply_of_error hread] at h
      cases h
  fails m f m' h := by
    cases hread : x m with
    | ok a m₁ =>
      rw [bind_apply_of_ok hread] at h
      obtain ⟨before, v, after, rfl, hbefore, hv⟩ := (hnext a).fails m₁ f m' h
      exact ⟨visits ++ before, v, after, (List.append_assoc ..).symm,
        List.forall_mem_append.mpr ⟨hx.fits m a m₁ hread, hbefore⟩, hv⟩
    | error g m₁ =>
      rw [bind_apply_of_error hread] at h
      cases h
      obtain ⟨before, v, after, rfl, hbefore, hv⟩ := hx.fails m f m' hread
      exact ⟨before, v, after ++ later, List.append_assoc .., hbefore, hv⟩

/-- A step that is all of one visit. -/
theorem single {x : Exec α} (hv : v.Fits) (hx : OnlyFails v.node.Raises x) :
    Follows [v] x where
  fits _ _ _ _ := List.forall_mem_singleton.mpr hv
  fails m f m' h := ⟨[], v, [], rfl, nofun, .inr ⟨hv, hx m f m' h⟩⟩

theorem misplaced (hv : ¬ v.Fits) : Follows [v] (Exec.misplaced v.task v.node : Exec α) where
  fits := by
    rintro m a m' ⟨⟩
  fails := by
    rintro m f m' ⟨⟩
    exact ⟨[], v, [], rfl, nofun, .inl ⟨hv, rfl⟩⟩

/-- A visit behind the others that does nothing. -/
theorem idle {x : Exec α} (hx : Follows visits x) (hv : v.Fits) : Follows (visits ++ [v]) x where
  fits m a m' h :=
    List.forall_mem_append.mpr ⟨hx.fits m a m' h, List.forall_mem_singleton.mpr hv⟩
  fails m f m' h := by
    obtain ⟨before, u, after, rfl, hbefore, hu⟩ := hx.fails m f m' h
    exact ⟨before, u, after ++ [v], List.append_assoc .., hbefore, hu⟩

theorem inScope {body : Exec Unit} (h : Follows visits body) :
    Follows visits (Exec.inScope body) where
  fits m a m' hread := by
    unfold Exec.inScope at hread
    split at hread
    · next hbody => exact h.fits _ _ _ hbody
    · cases hread
  fails m f m' hread := by
    unfold Exec.inScope at hread
    split at hread
    · cases hread
    · next hbody =>
      cases hread
      exact h.fails _ _ _ hbody

end Follows
end Exec

open Exec

theorem Node.eval_follows : (node : Node) → Follows node.evalVisits node.eval
  | .assign name value => by
    refine value.eval_follows.bind fun v => .single rfl ?_
    exact (OnlyFails.setVariable (.assign name value) v).bind fun _ => .pure v
  | .binary left operator right => by
    refine left.eval_follows.bind fun l => right.eval_follows.bind fun r => .single rfl ?_
    exact .ofExcept fun f hf => applyBinary_raises hf left right
  | .grouping inner => inner.eval_follows.idle rfl
  | .unary operator right => by
    refine right.eval_follows.bind fun r => .single rfl ?_
    exact .ofExcept fun f hf => applyUnary_raises hf right
  | .literal value => .single rfl (.pure value)
  | .variable name => .single rfl (.getVariable (.variable name))
  | .block _ | .expression _ | .print _ | .var _ _ | .unknownExpr | .unknownStmt | .text _
  | .absent => .misplaced nofun

theorem Node.initialValue_follows (node : Node) :
    Follows node.initialVisits node.initialValue := by
  cases node with
  | absent => exact .pure _
  | assign | binary | grouping | literal | unary | «variable» | block | expression | print | var
  | unknownExpr | unknownStmt | text => exact Node.eval_follows _

mutual

theorem Node.exec_follows : (node : Node) → Follows node.execVisits node.exec
  | .block statements => (Node.execAll_follows statements).inScope.idle rfl
  | .expression expr => expr.eval_follows.bind fun _ => .single rfl (.pure ())
  | .print expr => expr.eval_follows.bind fun _ => .single rfl (.modify _)
  | .var _ initializer => initializer.initialValue_follows.bind fun _ => .single rfl (.modify _)
  | .assign _ _ | .binary _ _ _ | .grouping _ | .literal _ | .unary _ _ | .variable _
  | .unknownExpr | .unknownStmt | .text _ | .absent => .misplaced nofun

theorem Node.execAll_follows : (nodes : List Node) →
    Follows (execVisitsAll nodes) (Node.execAll nodes)
  | [] => .pure ()
  | node :: rest => node.exec_follows.bind fun _ => Node.execAll_follows rest

end

/-- Visits that do not all fit have a first one that does not. -/
theorem Visit.exists_first_unfit {visits : List Visit} (h : ¬ ∀ v ∈ visits, v.Fits) :
    ∃ before bad after, visits = before ++ bad :: after ∧ (∀ v ∈ before, v.Fits) ∧ ¬ bad.Fits := by
  induction visits with
  | nil => exact absurd nofun h
  | cons v visits ih =>
    by_cases hv : v.Fits
    · have hrest : ¬ ∀ u ∈ visits, u.Fits := fun hall => h (List.forall_mem_cons.mpr ⟨hv, hall⟩)
      obtain ⟨before, bad, after, rfl, hbefore, hbad⟩ := ih hrest
      exact ⟨v :: before, bad, after, rfl, List.forall_mem_cons.mpr ⟨hv, hbefore⟩, hbad⟩
    · exact ⟨[], v, visits, rfl, nofun, hv⟩

/-- A step that follows visits with an unfit one fails, by the first of these or in front of it. -/
theorem Exec.Follows.fails_of_unfit {α : Type} {visits : List Visit} {x : Exec α}
    (hx : Follows visits x) (h : ¬ ∀ v ∈ visits, v.Fits) (m : Machine) :
    ∃ before bad after f m', visits = before ++ bad :: after ∧ (∀ v ∈ before, v.Fits) ∧
      ¬ bad.Fits ∧ x m = .error f m' ∧
      (f = .misplaced (.of bad.task bad.node) ∨ ∃ v ∈ before, v.node.Raises f) := by
  cases hread : x m with
  | ok a m' => exact absurd (hx.fits m a m' hread) h
  | error f m' =>
    obtain ⟨before, v, after, rfl, hbefore, ⟨hv, hf⟩ | ⟨hv, hf⟩⟩ := hx.fails m f m' hread
    · exact ⟨before, v, after, f, m', rfl, hbefore, hv, rfl, .inl hf⟩
    · have hafter : ¬ ∀ u ∈ after, u.Fits := fun hall =>
        h (List.forall_mem_append.mpr ⟨hbefore, List.forall_mem_cons.mpr ⟨hv, hall⟩⟩)
      obtain ⟨between, bad, rest, rfl, hbetween, hbad⟩ := Visit.exists_first_unfit hafter
      refine ⟨before ++ v :: between, bad, rest, f, m', by simp, ?_, hbad, rfl,
        .inr ⟨v, List.mem_append_right _ (.head _), hf⟩⟩
      exact List.forall_mem_append.mpr ⟨hbefore, List.forall_mem_cons.mpr ⟨hv, hbetween⟩⟩

/-- No node is skipped. A tree that executes is a statement, with statements and expressions inside
it where they belong, and it can be printed. Any other tree fails, from every state: with the
internal error for the first misplaced node in the order of execution, or with what a node visited
before that one raises. All trees of statements and of expressions can be printed. -/
theorem exec_skips_no_node (node : Node) (m : Machine) :
    (∀ m', node.exec m = .ok () m' → node.IsStmt ∧ ∃ text, node.render = .ok text) ∧
    (¬ node.IsStmt → ∃ before bad after f m',
      node.execVisits = before ++ bad :: after ∧ (∀ v ∈ before, v.Fits) ∧ ¬ bad.Fits ∧
      node.exec m = .error f m' ∧
      (f.toFault = .error (.general
          ("cannot " ++ bad.task.verb ++ " '" ++ bad.node.className ++ "'") true exitSoftware) ∨
        ∃ v ∈ before, v.node.Raises f)) ∧
    (node.IsStmt ∨ node.IsExpr → ∃ text, node.render = .ok text) := by
  refine ⟨fun m' h => ?_, fun h => ?_, ?_⟩
  · have hstmt : node.IsStmt := node.isStmt_of_fits (node.exec_follows.fits m () m' h)
    exact ⟨hstmt, hstmt.exists_render⟩
  · obtain ⟨before, bad, after, f, m', hvisits, hbefore, hbad, hread, hf⟩ :=
      node.exec_follows.fails_of_unfit (fun hall => h (node.isStmt_of_fits hall)) m
    refine ⟨before, bad, after, f, m', hvisits, hbefore, hbad, hread, hf.imp_left ?_⟩
    rintro rfl
    rfl
  · rintro (h | h)
    · exact h.exists_render
    · exact h.exists_render

/-- The sum of a variable and nothing, printed in empty scopes: the variable is visited in front of
the missing operand. -/
theorem exec_of_missing_operand :
    let node := Node.print
      (.binary (.variable ⟨.identifier, "a", .nil, 1⟩) ⟨.plus, "+", .nil, 1⟩ .absent)
    ¬ node.IsStmt ∧ ∃ before bad after f m',
      node.execVisits = before ++ bad :: after ∧ (∀ v ∈ before, v.Fits) ∧ ¬ bad.Fits ∧
      node.exec ⟨.empty, []⟩ = .error f m' ∧
      (f.toFault = .error (.general
          ("cannot " ++ bad.task.verb ++ " '" ++ bad.node.className ++ "'") true exitSoftware) ∨
        ∃ v ∈ before, v.node.Raises f) := by
  intro node
  have hnode : ¬ node.IsStmt := by
    intro h
    obtain ⟨text, htext⟩ := h.exists_render
    cases htext
  exact ⟨hnode, (exec_skips_no_node node ⟨.empty, []⟩).2.1 hnode⟩

end LoxLang
