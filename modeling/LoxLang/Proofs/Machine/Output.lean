import LoxLang.Proofs.Machine.Renaming

/-! # Output and sequencing

The evaluation of an expression neither reads nor writes the output. A statement adds to it, but
never reads it: what was printed before only stands in front of what is printed later. So the
execution of two lists of nodes one after the other is described by two separate runs, the second
from the scopes that the first leaves (`Chain.run_append_of_ok`), and printing an expression does
what the expression does as a statement, and prints its value (`Chain.run_of_evaluate_eq_ok`). -/

namespace LoxLang

variable {α β : Type}

/-- The state in which something else had been printed before. -/
def Machine.printedAfter (front : List String) (m : Machine) : Machine :=
  { m with printed := front ++ m.printed }

namespace Exec

/-- The end of a step, with another output. -/
def withPrinted (printed : List String) :
    EStateM.Result Failure Machine α → EStateM.Result Failure Machine α
  | .ok a m => .ok a { m with printed }
  | .error f m => .error f { m with printed }

/-- The end of a step, with something else printed before. -/
def printedAfter (front : List String) :
    EStateM.Result Failure Machine α → EStateM.Result Failure Machine α
  | .ok a m => .ok a (m.printedAfter front)
  | .error f m => .error f (m.printedAfter front)

/-- The step neither reads nor writes the output. -/
def LeavesOutput (x : Exec α) : Prop :=
  ∀ scopes printed, x ⟨scopes, printed⟩ = withPrinted printed (x ⟨scopes, []⟩)

/-- The step does not read the output, and only adds to it. -/
def ExtendsOutput (x : Exec α) : Prop :=
  ∀ front m, x (m.printedAfter front) = printedAfter front (x m)

/-! ## Steps that leave the output alone -/

namespace LeavesOutput

theorem pure (a : α) : LeavesOutput (Pure.pure a : Exec α) :=
  fun _ _ => rfl

theorem throw (f : Failure) : LeavesOutput (MonadExcept.throw f : Exec α) :=
  fun _ _ => rfl

theorem printed_eq_nil {x : Exec α} (hx : LeavesOutput x) {scopes : Chain} {a : α} {m : Machine}
    (h : x ⟨scopes, []⟩ = .ok a m) : m.printed = [] := by
  have hnil := hx scopes []
  rw [h] at hnil
  exact congrArg Machine.printed (EStateM.Result.ok.inj hnil).2

theorem bind {x : Exec α} {next : α → Exec β} (hx : LeavesOutput x)
    (hnext : ∀ a, LeavesOutput (next a)) : LeavesOutput (x >>= next) := by
  intro scopes printed
  have hprinted := hx scopes printed
  cases hrun : x ⟨scopes, []⟩ with
  | ok a m =>
    obtain ⟨scopes', printed'⟩ := m
    obtain rfl : printed' = [] := hx.printed_eq_nil hrun
    rw [hrun] at hprinted
    rw [bind_apply_of_ok hprinted, bind_apply_of_ok hrun]
    exact hnext a scopes' printed
  | error f m =>
    rw [hrun] at hprinted
    rw [bind_apply_of_error hprinted, bind_apply_of_error hrun]
    rfl

theorem ofExcept (r : Except Failure α) : LeavesOutput (Exec.ofExcept r) := by
  cases r with
  | ok a => exact pure a
  | error f => exact throw f

theorem getVariable (name : Token) : LeavesOutput (Exec.getVariable name) := by
  intro scopes printed
  rw [getVariable_apply, getVariable_apply]
  cases scopes.get? name.lexeme <;> rfl

theorem setVariable (name : Token) (value : Value) :
    LeavesOutput (Exec.setVariable name value) := by
  intro scopes printed
  rw [setVariable_apply, setVariable_apply]
  cases scopes.assign? name.lexeme value <;> rfl

theorem extendsOutput {x : Exec α} (hx : LeavesOutput x) : ExtendsOutput x := by
  intro front m
  obtain ⟨scopes, printed⟩ := m
  rw [Machine.printedAfter, hx scopes (front ++ printed), hx scopes printed]
  cases x ⟨scopes, []⟩ <;> rfl

end LeavesOutput

/-! ## Steps that add to the output -/

namespace ExtendsOutput

theorem bind {x : Exec α} {next : α → Exec β} (hx : ExtendsOutput x)
    (hnext : ∀ a, ExtendsOutput (next a)) : ExtendsOutput (x >>= next) := by
  intro front m
  have hfront := hx front m
  cases hrun : x m with
  | ok a m' =>
    rw [hrun] at hfront
    rw [bind_apply_of_ok hfront, bind_apply_of_ok hrun]
    exact hnext a front m'
  | error f m' =>
    rw [hrun] at hfront
    rw [bind_apply_of_error hfront, bind_apply_of_error hrun]
    rfl

theorem declare (name : Token) (value : Value) : ExtendsOutput (Exec.declare name value) :=
  fun _ _ => rfl

theorem printLine (line : String) : ExtendsOutput (Exec.printLine line) := by
  intro front m
  have hprinted : (front ++ m.printed) ++ [line] = front ++ (m.printed ++ [line]) :=
    List.append_assoc ..
  exact congrArg (fun printed => EStateM.Result.ok () (Machine.mk m.scopes printed)) hprinted

theorem inScope {body : Exec Unit} (h : ExtendsOutput body) :
    ExtendsOutput (Exec.inScope body) := by
  intro front m
  have hbody := h front { m with scopes := m.scopes.enter }
  simp only [Machine.printedAfter] at hbody
  simp only [Exec.inScope, Machine.printedAfter, hbody]
  cases body { m with scopes := m.scopes.enter } <;> rfl

end ExtendsOutput
end Exec

open Exec (LeavesOutput ExtendsOutput)

/-! ## Trees -/

theorem Node.eval_leavesOutput (node : Node) : LeavesOutput node.eval := by
  fun_induction Node.eval node with
  | case1 name value ih =>
    exact ih.bind fun v => (LeavesOutput.setVariable name v).bind fun _ => .pure v
  | case2 left operator right ihleft ihright =>
    exact ihleft.bind fun l => ihright.bind fun r => .ofExcept _
  | case3 inner ih => exact ih
  | case4 value => exact .pure value
  | case5 operator right ih => exact ih.bind fun r => .ofExcept _
  | case6 name => exact .getVariable name
  | case7 node => exact .throw _

theorem Node.eval_extendsOutput (node : Node) : ExtendsOutput node.eval :=
  node.eval_leavesOutput.extendsOutput

theorem Node.initialValue_extendsOutput (node : Node) : ExtendsOutput node.initialValue := by
  unfold Node.initialValue
  split
  · exact (LeavesOutput.pure _).extendsOutput
  · exact node.eval_extendsOutput

mutual

theorem Node.exec_extendsOutput (node : Node) : ExtendsOutput node.exec := by
  unfold Node.exec
  split
  · next nodes => exact (Node.execAll_extendsOutput nodes).inScope
  · next expr =>
    exact expr.eval_extendsOutput.bind fun _ => (LeavesOutput.pure ()).extendsOutput
  · next expr => exact expr.eval_extendsOutput.bind fun v => .printLine v.display
  · next name initializer =>
    exact initializer.initialValue_extendsOutput.bind fun v => .declare name v
  · exact (LeavesOutput.throw _).extendsOutput

theorem Node.execAll_extendsOutput : (nodes : List Node) → ExtendsOutput (Node.execAll nodes)
  | [] => (LeavesOutput.pure ()).extendsOutput
  | node :: rest => by
    rw [Node.execAll]
    exact (Node.exec_extendsOutput node).bind fun _ => Node.execAll_extendsOutput rest

end

/-! ## Nodes one after the other -/

theorem Node.execAll_append (xs ys : List Node) :
    execAll (xs ++ ys) = execAll xs >>= fun _ => execAll ys := by
  induction xs with
  | nil => rfl
  | cons x xs ih => rw [List.cons_append, execAll, execAll, ih, bind_assoc]

/-- More nodes behind nodes that do not fail are run from the scopes that these leave. -/
theorem Chain.run_append_of_ok {scopes : Chain} {xs : List Node} {m : Machine}
    (h : scopes.run xs = (m, none)) (ys : List Node) :
    scopes.run (xs ++ ys) =
      ((m.scopes.run ys).1.printedAfter m.printed, (m.scopes.run ys).2) := by
  unfold run at h ⊢
  split at h
  · next a m' hxs =>
    obtain ⟨rfl, -⟩ := Prod.mk.inj h
    have hys := Node.execAll_extendsOutput ys m'.printed ⟨m'.scopes, []⟩
    rw [Machine.printedAfter, List.append_nil] at hys
    rw [Node.execAll_append, bind_apply_of_ok hxs, hys]
    cases Node.execAll ys ⟨m'.scopes, []⟩ <;> rfl
  · cases (Prod.mk.inj h).2

/-- Nodes behind a failure are not run. -/
theorem Chain.run_append_of_error {scopes : Chain} {xs : List Node} {m : Machine} {f : Failure}
    (h : scopes.run xs = (m, some f)) (ys : List Node) :
    scopes.run (xs ++ ys) = (m, some f) := by
  unfold run at h ⊢
  split at h
  · cases (Prod.mk.inj h).2
  · next f' m' hxs =>
    rw [Node.execAll_append, bind_apply_of_error hxs]
    exact h

theorem Stmt.toNodes_append (ss ts : List Stmt) :
    toNodes (ss ++ ts) = toNodes ss ++ toNodes ts := by
  induction ss with
  | nil => rfl
  | cons s ss ih => exact congrArg (s.toNode :: ·) ih

/-! ## Expressions as statements -/

theorem Chain.run_singleton (scopes : Chain) (node : Node) :
    scopes.run [node] =
      match node.exec ⟨scopes, []⟩ with
      | .ok _ m => (m, none)
      | .error f m => (m, some f) := by
  unfold run
  rw [Node.execAll]
  cases hexec : node.exec ⟨scopes, []⟩ with
  | ok _ m =>
    rw [bind_apply_of_ok hexec]
    rfl
  | error f m => rw [bind_apply_of_error hexec]

/-- Printing an expression and the expression as a statement end in the scopes that its evaluation
leaves; only the first prints the value. -/
theorem Chain.run_of_evaluate_eq_ok {scopes scopes' : Chain} {node : Node} {v : Value}
    (h : scopes.evaluate node = (.ok v, scopes')) :
    scopes.run [.print node] = (⟨scopes', [v.display]⟩, none) ∧
      scopes.run [.expression node] = (⟨scopes', []⟩, none) := by
  unfold evaluate at h
  split at h
  · next value m heval =>
    obtain ⟨hvalue, rfl⟩ := Prod.mk.inj h
    cases hvalue
    obtain ⟨scopes', printed⟩ := m
    obtain rfl : printed = [] := node.eval_leavesOutput.printed_eq_nil heval
    rw [run_singleton, run_singleton, Node.exec, Node.exec, bind_apply_of_ok heval,
      bind_apply_of_ok heval]
    exact ⟨rfl, rfl⟩
  · cases (Prod.mk.inj h).1

theorem Chain.run_of_evaluate_eq_error {scopes scopes' : Chain} {node : Node} {f : Failure}
    (h : scopes.evaluate node = (.error f, scopes')) :
    (scopes.run [.print node]).2 = some f := by
  unfold evaluate at h
  split at h
  · cases (Prod.mk.inj h).1
  · next f' m heval =>
    cases (Prod.mk.inj h).1
    rw [run_singleton, Node.exec, bind_apply_of_error heval]

end LoxLang
