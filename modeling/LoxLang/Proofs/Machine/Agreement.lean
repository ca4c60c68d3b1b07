import LoxLang.Proofs.Machine.Frame

/-! # A program depends on the names it mentions

Two states of the chain agree on names if they have the same scopes of blocks and their global
scopes bind these names alike; what else the global scopes bind, and in which order, may differ
(`Chain.AgreeOn`). A step that mentions only such names does the same in both states and leaves
states that agree again (`Exec.Respects`), and so does every execution of trees
(`Node.execAll_respects`). With what an execution leaves alone of the globals, this gives
`interpret_depends_on_mentioned_names`. -/

namespace LoxLang

/-! ## The names in trees -/

mutual

/-- The names that occur in a tree: of variables, as targets of assignments, and declared. -/
def Node.names : Node → List String
  | .assign name value => name.lexeme :: value.names
  | .binary left _ right => left.names ++ right.names
  | .grouping inner => inner.names
  | .unary _ right => right.names
  | .variable name => [name.lexeme]
  | .block statements => Node.namesAll statements
  | .expression expr => expr.names
  | .print expr => expr.names
  | .var name initializer => name.lexeme :: initializer.names
  | _ => []

def Node.namesAll : List Node → List String
  | [] => []
  | node :: rest => node.names ++ Node.namesAll rest

end

/-! ## Two states of the chain -/

namespace Chain

/-- The scopes of blocks are the same, and the global scopes bind the names `N` alike. -/
structure AgreeOn (N : List String) (c c' : Chain) : Prop where
  locals : c.locals = c'.locals
  globals : ∀ n ∈ N, c.globals.get? n = c'.globals.get? n

namespace AgreeOn

variable {N : List String} {c c' : Chain}

theorem get? (h : AgreeOn N c c') {name : String} (hname : name ∈ N) :
    c.get? name = c'.get? name := by
  rw [Chain.get?, Chain.get?, List.findSome?_append, List.findSome?_append, h.locals,
    List.findSome?_singleton, List.findSome?_singleton, h.globals name hname]

/-- Binding a name in both global scopes keeps them alike, whichever name it is. -/
theorem define_globals (h : AgreeOn N c c') (name : String) (value : Value) :
    AgreeOn N { c with globals := c.globals.define name value }
      { c with globals := c'.globals.define name value } := by
  refine ⟨rfl, fun n hn => ?_⟩
  rw [Bindings.get?_define, Bindings.get?_define, h.globals n hn]

theorem define (h : AgreeOn N c c') (name : String) (value : Value) :
    AgreeOn N (c.define name value) (c'.define name value) := by
  rw [Chain.define, Chain.define, ← h.locals]
  split
  · exact h.define_globals name value
  · exact ⟨rfl, h.globals⟩

/-- A name is rebound in both states or in none. -/
theorem assign? (h : AgreeOn N c c') {name : String} (hname : name ∈ N) (value : Value) :
    (c.assign? name value = none ∧ c'.assign? name value = none) ∨
    ∃ d d', c.assign? name value = some d ∧ c'.assign? name value = some d' ∧ AgreeOn N d d' := by
  have hhas : c.globals.has name = c'.globals.has name := by
    rw [Bindings.has, Bindings.has, h.globals name hname]
  rw [Chain.assign?, Chain.assign?, ← h.locals, ← hhas]
  split
  · exact .inr ⟨_, _, rfl, rfl, rfl, h.globals⟩
  · split
    · exact .inr ⟨_, _, rfl, rfl, h.define_globals name value⟩
    · exact .inl ⟨rfl, rfl⟩

theorem enter (h : AgreeOn N c c') : AgreeOn N c.enter c'.enter :=
  ⟨congrArg ([] :: ·) h.locals, h.globals⟩

theorem leave (h : AgreeOn N c c') : AgreeOn N c.leave c'.leave :=
  ⟨congrArg List.tail h.locals, h.globals⟩

end AgreeOn
end Chain

/-! ## Steps -/

namespace Exec

variable {α β : Type} {N : List String}

/-- Both ends give the same value or the same failure, have printed the same, and agree on the
names `N`. -/
inductive EndsAlike (N : List String) :
    EStateM.Result Failure Machine α → EStateM.Result Failure Machine α → Prop
  | ok {c c' : Chain} (a : α) (printed : List String) :
    c.AgreeOn N c' → EndsAlike N (.ok a ⟨c, printed⟩) (.ok a ⟨c', printed⟩)
  | error {c c' : Chain} (f : Failure) (printed : List String) :
    c.AgreeOn N c' → EndsAlike N (.error f ⟨c, printed⟩) (.error f ⟨c', printed⟩)

/-- From states that agree on the names `N`, the step ends alike. -/
def Respects (N : List String) (x : Exec α) : Prop :=
  ∀ c c' printed, c.AgreeOn N c' → EndsAlike N (x ⟨c, printed⟩) (x ⟨c', printed⟩)

namespace Respects

theorem pure (a : α) : Respects N (Pure.pure a : Exec α) :=
  fun _ _ printed h => .ok a printed h

theorem throw (f : Failure) : Respects N (MonadExcept.throw f : Exec α) :=
  fun _ _ printed h => .error f printed h

theorem bind {x : Exec α} {next : α → Exec β} (hx : Respects N x)
    (hnext : ∀ a, Respects N (next a)) : Respects N (x >>= next) := by
  intro c c' printed h
  have hends := hx c c' printed h
  generalize hr : x ⟨c, printed⟩ = r at hends
  generalize hr' : x ⟨c', printed⟩ = r' at hends
  cases hends with
  | ok a printed h =>
    rw [bind_apply_of_ok hr, bind_apply_of_ok hr']
    exact hnext a _ _ printed h
  | error f printed h =>
    rw [bind_apply_of_error hr, bind_apply_of_error hr']
    exact .error f printed h

theorem ofExcept (r : Except Failure α) : Respects N (Exec.ofExcept r) := by
  cases r with
  | ok a => exact pure a
  | error f => exact throw f

theorem getVariable {name : Token} (hname : name.lexeme ∈ N) :
    Respects N (Exec.getVariable name) := by
  intro c c' printed h
  rw [getVariable_apply, getVariable_apply, h.get? hname]
  cases c'.get? name.lexeme with
  | none => exact .error _ _ h
  | some value => exact .ok _ _ h

theorem setVariable {name : Token} (hname : name.lexeme ∈ N) (value : Value) :
    Respects N (Exec.setVariable name value) := by
  intro c c' printed h
  rw [setVariable_apply, setVariable_apply]
  rcases h.assign? hname value with ⟨hc, hc'⟩ | ⟨d, d', hc, hc', hd⟩
  · rw [hc, hc']
    exact .error _ _ h
  · rw [hc, hc']
    exact .ok _ _ hd

theorem declare (name : Token) (value : Value) : Respects N (Exec.declare name value) :=
  fun _ _ printed h => .ok () printed (h.define name.lexeme value)

theorem printLine (line : String) : Respects N (Exec.printLine line) :=
  fun _ _ printed h => .ok () (printed ++ [line]) h

theorem inScope {body : Exec Unit} (hbody : Respects N body) :
    Respects N (Exec.inScope body) := by
  intro c c' printed h
  have hends := hbody c.enter c'.enter printed h.enter
  rw [Exec.inScope, Exec.inScope]
  generalize body ⟨c.enter, printed⟩ = r at hends
  generalize body ⟨c'.enter, printed⟩ = r' at hends
  cases hends with
  | ok a printed h => exact .ok a printed h.leave
  | error f printed h => exact .error f printed h.leave

end Respects
end Exec

open Exec (Respects)

/-! ## Trees -/

variable {N : List String}

theorem Node.eval_respects {node : Node} (h : node.names ⊆ N) : Respects N node.eval := by
  fun_induction Node.eval node with
  | case1 name value ih =>
    rw [names, List.cons_subset] at h
    exact (ih h.2).bind fun v => (Respects.setVariable h.1 v).bind fun _ => .pure v
  | case2 left operator right ihleft ihright =>
    rw [names, List.append_subset] at h
    exact (ihleft h.1).bind fun l => (ihright h.2).bind fun r => .ofExcept _
  | case3 inner ih =>
    rw [names] at h
    exact ih h
  | case4 value => exact .pure value
  | case5 operator right ih =>
    rw [names] at h
    exact (ih h).bind fun r => .ofExcept _
  | case6 name =>
    rw [names, List.cons_subset] at h
    exact .getVariable h.1
  | case7 node => exact .throw _

theorem Node.initialValue_respects {node : Node} (h : node.names ⊆ N) :
    Respects N node.initialValue := by
  unfold Node.initialValue
  split
  · exact .pure _
  · exact Node.eval_respects h

mutual

theorem Node.exec_respects (node : Node) (h : node.names ⊆ N) : Respects N node.exec := by
  unfold Node.exec
  split
  · next nodes =>
    rw [Node.names] at h
    exact (Node.execAll_respects nodes h).inScope
  · next expr =>
    rw [Node.names] at h
    exact (Node.eval_respects h).bind fun _ => .pure ()
  · next expr =>
    rw [Node.names] at h
    exact (Node.eval_respects h).bind fun v => .printLine v.display
  · next name initializer =>
    rw [Node.names, List.cons_subset] at h
    exact (Node.initialValue_respects h.2).bind fun v => .declare name v
  · exact .throw _

theorem Node.execAll_respects : (nodes : List Node) → Node.namesAll nodes ⊆ N →
    Respects N (Node.execAll nodes)
  | [], _ => .pure ()
  | node :: rest, h => by
    rw [Node.namesAll, List.append_subset] at h
    rw [Node.execAll]
    exact (Node.exec_respects node h.1).bind fun _ => Node.execAll_respects rest h.2

end

/-! ## Runs -/

namespace Chain

variable {nodes : List Node}

/-- Runs from states that agree on the names of the program end alike. -/
theorem run_agreeOn {c c' : Chain} (hnames : Node.namesAll nodes ⊆ N) (h : c.AgreeOn N c') :
    (c.run nodes).2 = (c'.run nodes).2 ∧ (c.run nodes).1.printed = (c'.run nodes).1.printed ∧
      (c.run nodes).1.scopes.AgreeOn N (c'.run nodes).1.scopes := by
  have hends := Node.execAll_respects nodes hnames c c' [] h
  unfold run
  generalize Node.execAll nodes ⟨c, []⟩ = r at hends
  generalize Node.execAll nodes ⟨c', []⟩ = r' at hends
  cases hends with
  | ok a printed h => exact ⟨rfl, rfl, h⟩
  | error f printed h => exact ⟨rfl, rfl, h⟩

/-- A run from the global scope ends there. -/
theorem locals_run_globals (globals : Bindings) (nodes : List Node) :
    (run ⟨[], globals⟩ nodes).1.scopes.locals = [] := by
  have hlength := (run_declares (List.Subset.refl (Node.targetsAll nodes))
    ⟨[], globals⟩).length_locals
  exact List.length_eq_zero_iff.mp hlength

/-- A global keeps its binding if the program neither declares it outside of blocks nor assigns to
it anywhere. -/
theorem get?_globals_run {globals : Bindings} {n : String}
    (hdeclared : n ∉ nodes.flatMap Node.declared) (htargets : n ∉ Node.targetsAll nodes) :
    (run ⟨[], globals⟩ nodes).1.scopes.globals.get? n = globals.get? n := by
  have hrun := run_declares (List.Subset.refl (Node.targetsAll nodes)) ⟨[], globals⟩
  have hcompleted : n ∉ (completed ⟨[], globals⟩ nodes).flatMap Node.declared := by
    intro hn
    obtain ⟨node, hnode, hn⟩ := List.mem_flatMap.mp hn
    have hpart := completed_prefix ⟨[], globals⟩ nodes
    exact hdeclared (List.mem_flatMap.mpr ⟨node, hpart.subset hnode, hn⟩)
  have hvalues := hrun.values n htargets hcompleted
  rwa [current, current, locals_run_globals] at hvalues

end Chain

/-- Two engines at their global scopes, which bind every name that occurs in the program alike:
interpreting the program prints the same in both and ends by the same runtime error, if by any, and
the global scopes again bind every name that occurs in the program alike. In each of the two, a
global that the program neither declares outside of blocks nor assigns to is bound as it was. -/
theorem interpret_depends_on_mentioned_names (log log' : Log) (globals globals' : Bindings)
    (ss : List Stmt)
    (hagree : ∀ n ∈ Node.namesAll (Stmt.toNodes ss), globals.get? n = globals'.get? n) :
    let nodes := Stmt.toNodes ss
    let o := Engine.interpret ⟨log, ⟨[], globals⟩⟩ nodes
    let o' := Engine.interpret ⟨log', ⟨[], globals'⟩⟩ nodes
    o.printed = o'.printed ∧
    o.fault = o'.fault ∧ (Stmt.AllLegal ss → o.fault = none) ∧
    (∃ error? : Option TokenError,
      o.engine.log.runtimeErrors = log.runtimeErrors ++ error?.toList ∧
      o'.engine.log.runtimeErrors = log'.runtimeErrors ++ error?.toList) ∧
    o.engine.scopes.atGlobals = true ∧ o'.engine.scopes.atGlobals = true ∧
    (∀ n ∈ Node.namesAll nodes,
      o.engine.scopes.globals.get? n = o'.engine.scopes.globals.get? n) ∧
    ∀ n, n ∉ nodes.flatMap Node.declared → n ∉ Node.targetsAll nodes →
      o.engine.scopes.globals.get? n = globals.get? n ∧
      o'.engine.scopes.globals.get? n = globals'.get? n := by
  intro nodes o o'
  have hstart : Chain.AgreeOn (Node.namesAll nodes) ⟨[], globals⟩ ⟨[], globals'⟩ := ⟨rfl, hagree⟩
  obtain ⟨hfailure, hprinted, hscopes⟩ := Chain.run_agreeOn (List.Subset.refl _) hstart
  have hlegal (h : Stmt.AllLegal ss) : o.fault = none :=
    Engine.interpret_fault_eq_none (Chain.run_isRuntime h _)
  have hlocals := Chain.locals_run_globals globals nodes
  have hlocals' := Chain.locals_run_globals globals' nodes
  simp only [o, o', Engine.interpret_eq] at hlegal ⊢
  rw [hfailure] at hlegal ⊢
  refine ⟨hprinted, rfl, hlegal, ⟨_, rfl, rfl⟩, ?_, ?_, hscopes.globals, fun n hd ht => ⟨?_, ?_⟩⟩
  · rw [Chain.atGlobals, hlocals]
    rfl
  · rw [Chain.atGlobals, hlocals']
    rfl
  · exact Chain.get?_globals_run hd ht
  · exact Chain.get?_globals_run hd ht

/-- A program that hides one global, assigns to another and fails at a third, in global scopes that
differ in the names that it does not mention and in the order of those that it does. -/
theorem failing_program_in_two_scopes :
    let name (lexeme : String) : Token := ⟨.identifier, lexeme, .nil, 1⟩
    let ss : List Stmt :=
      [.block [.var (name "b") (some (.variable (name "a"))),
        .expression (.assign (name "a") (.literal .nil)), .print (.variable (name "b"))],
       .print (.variable (name "c"))]
    let globals : Bindings := [("z", .nil), ("b", .nil), ("a", .bool true)]
    let globals' : Bindings := [("a", .bool true), ("b", .nil)]
    let o := Engine.interpret ⟨.empty false, ⟨[], globals⟩⟩ (Stmt.toNodes ss)
    let o' := Engine.interpret ⟨.empty true, ⟨[], globals'⟩⟩ (Stmt.toNodes ss)
    (∀ n ∈ Node.namesAll (Stmt.toNodes ss), globals.get? n = globals'.get? n) ∧
    Stmt.AllLegal ss ∧ o.printed = ["true"] ∧ o'.printed = ["true"] ∧
    o.fault = none ∧ o'.fault = none ∧
    o'.engine.log.runtimeErrors = o.engine.log.runtimeErrors ∧
    o.engine.log.runtimeErrors.map TokenError.kind = [.undefinedVariable] ∧
    o.engine.scopes.globals.get? "a" = some .nil ∧
    o'.engine.scopes.globals.get? "a" = some .nil ∧
    o.engine.scopes.globals.get? "z" = some .nil ∧ o'.engine.scopes.globals.get? "z" = none := by
  intro name ss globals globals' o o'
  have hagree : ∀ n ∈ Node.namesAll (Stmt.toNodes ss), globals.get? n = globals'.get? n := by
    decide
  have hlegal : Stmt.AllLegal ss := by simp [ss, name, Stmt.AllLegal, Stmt.Legal, Expr.Legal]
  obtain ⟨hprinted, hfault, hnone, ⟨error?, herror, herror'⟩, -, -, hglobals, hframe⟩ :=
    interpret_depends_on_mentioned_names (.empty false) (.empty true) globals globals' ss hagree
  obtain ⟨hz, hz'⟩ := hframe "z" (by decide) (by decide)
  have hruns : o.printed = ["true"] := rfl
  have ha : o.engine.scopes.globals.get? "a" = some .nil := rfl
  refine ⟨hagree, hlegal, hruns, hprinted.symm.trans hruns, hnone hlegal,
    hfault.symm.trans (hnone hlegal), herror'.trans herror.symm, rfl, ha, ?_, hz, hz'⟩
  exact (hglobals "a" (by decide)).symm.trans ha

end LoxLang
