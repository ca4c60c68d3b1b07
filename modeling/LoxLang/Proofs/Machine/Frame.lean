import LoxLang.Proofs.Engine.Record
import LoxLang.Proofs.Machine.Output

/-! # What an execution leaves of the scopes

However an execution ends, the scopes that are open afterwards are those that were open before. The
scopes around the current one keep their names, the current one gets the names of the variables
whose declarations were executed in it, and a value changes only by an assignment to its name or by
such a declaration. `Chain.Declares` says this of two states of the chain; it composes, and every
step of an execution keeps to it (`Exec.Scoped`). `run_keeps_scopes` states it of every list of
trees, malformed ones included. -/

namespace LoxLang

/-! ## The names in trees -/

mutual

/-- The names that are assigned to somewhere in a tree. -/
def Node.targets : Node → List String
  | .assign name value => name.lexeme :: value.targets
  | .binary left _ right => left.targets ++ right.targets
  | .grouping inner => inner.targets
  | .unary _ right => right.targets
  | .block statements => Node.targetsAll statements
  | .expression expr => expr.targets
  | .print expr => expr.targets
  | .var _ initializer => initializer.targets
  | _ => []

def Node.targetsAll : List Node → List String
  | [] => []
  | node :: rest => node.targets ++ Node.targetsAll rest

end

/-- The name that a tree declares in the scope in which it stands. -/
def Node.declared : Node → List String
  | .var name _ => [name.lexeme]
  | _ => []

/-- Names with new ones behind them: those that are not among them yet, in order, each once. -/
def extendNames (names new : List String) : List String :=
  names ++ (new.filter (· ∉ names)).eraseDups

@[simp]
theorem extendNames_nil (names : List String) : extendNames names [] = names := by
  simp [extendNames]

theorem extendNames_append (names xs ys : List String) :
    extendNames (extendNames names xs) ys = extendNames names (xs ++ ys) := by
  have hfilter : ys.filter (· ∉ extendNames names xs) =
      (ys.filter (· ∉ names)).removeAll (xs.filter (· ∉ names)) := by
    rw [List.removeAll, List.filter_filter]
    refine List.filter_congr fun y _ => ?_
    by_cases hy : y ∈ names <;> simp [extendNames, hy]
  rw [extendNames, hfilter, extendNames, extendNames, List.filter_append, List.eraseDups_append,
    List.append_assoc]

theorem Bindings.names_define_eq_extendNames (b : Bindings) (name : String) (value : Value) :
    (b.define name value).names = extendNames b.names [name] := by
  have hmem : name ∈ b.names ↔ b.has name = true := mem_names_iff
  rw [names_define, extendNames]
  split
  · next h => simp [hmem.mpr h]
  · next h => simp [mt hmem.mp h, List.eraseDups_cons]

/-! ## Two states of the chain -/

namespace Chain

/-- The open scopes, the current one first and the global one last. -/
def stack (c : Chain) : List Bindings := c.locals ++ [c.globals]

def current (c : Chain) : Bindings := c.locals.headD c.globals

/-- The scopes around the current one. -/
def outer (c : Chain) : List Bindings := c.stack.tail

theorem stack_eq (c : Chain) : c.stack = c.current :: c.outer := by
  obtain ⟨locals, globals⟩ := c
  cases locals <;> rfl

/-- What `f` tells of scopes does not change by rebinding a name, if it does not in any scope that
binds the name. -/
theorem map_stack_assign? {β : Type} (f : Bindings → β) {c c' : Chain} {name : String}
    {value : Value} (hf : ∀ b : Bindings, b.has name = true → f (b.define name value) = f b)
    (h : c.assign? name value = some c') : c'.stack.map f = c.stack.map f := by
  have hlocals : ∀ ls ls', assignIn? name value ls = some ls' → ls'.map f = ls.map f := by
    intro ls
    induction ls with
    | nil => nofun
    | cons b ls ih =>
      intro ls' hassign
      rw [assignIn?] at hassign
      split at hassign
      · next hb =>
        cases hassign
        simp [hf b hb]
      · obtain ⟨rest, hrest, rfl⟩ := Option.map_eq_some_iff.mp hassign
        simp [ih rest hrest]
  rw [assign?] at h
  split at h
  · next ls hls =>
    cases h
    simp [stack, hlocals c.locals ls hls]
  · split at h
    · next hglobals =>
      cases h
      simp [stack, hf c.globals hglobals]
    · cases h

/-- From `c` to `c'`, the scopes around the current one keep their names, and the current one gets
the names `ds`; values change at most of the names `A` and, in the current scope, of `ds`. -/
structure Declares (A ds : List String) (c c' : Chain) : Prop where
  outerNames : c'.outer.map Bindings.names = c.outer.map Bindings.names
  outerValues : ∀ n ∉ A, c'.outer.map (·.get? n) = c.outer.map (·.get? n)
  names : c'.current.names = extendNames c.current.names ds
  values : ∀ n ∉ A, n ∉ ds → c'.current.get? n = c.current.get? n

namespace Declares

variable {A ds es : List String} {c c' c'' : Chain}

theorem refl (c : Chain) : Declares A [] c c := by
  constructor <;> simp

theorem trans (h : Declares A ds c c') (h' : Declares A es c' c'') :
    Declares A (ds ++ es) c c'' where
  outerNames := h'.outerNames.trans h.outerNames
  outerValues n hn := (h'.outerValues n hn).trans (h.outerValues n hn)
  names := by rw [h'.names, h.names, extendNames_append]
  values n hn hds := by
    simp only [List.mem_append, not_or] at hds
    rw [h'.values n hn hds.2, h.values n hn hds.1]

theorem of_stack (hnames : c'.stack.map Bindings.names = c.stack.map Bindings.names)
    (hvalues : ∀ n ∉ A, c'.stack.map (·.get? n) = c.stack.map (·.get? n)) :
    Declares A [] c c' := by
  simp only [stack_eq, List.map_cons, List.cons.injEq] at hnames hvalues
  refine ⟨hnames.2, fun n hn => (hvalues n hn).2, ?_, fun n hn _ => (hvalues n hn).1⟩
  rw [hnames.1, extendNames_nil]

theorem assign {name : String} {value : Value} (hname : name ∈ A)
    (h : c.assign? name value = some c') : Declares A [] c c' := by
  refine of_stack (map_stack_assign? _ (fun b hb => ?_) h)
    fun n hn => map_stack_assign? _ (fun b _ => ?_) h
  · rw [Bindings.names_define, if_pos hb]
  · rw [Bindings.get?_define, if_neg (ne_of_mem_of_not_mem hname hn).symm]

theorem define (c : Chain) (name : String) (value : Value) :
    Declares A [name] c (c.define name value) := by
  obtain ⟨locals, globals⟩ := c
  have hnames := fun b : Bindings => b.names_define_eq_extendNames name value
  have hvalues : ∀ (b : Bindings) (n : String), n ∉ [name] →
      (b.define name value).get? n = b.get? n := fun b n hn => by
    rw [Bindings.get?_define, if_neg (by simpa using hn)]
  cases locals with
  | nil => exact ⟨rfl, fun _ _ => rfl, hnames globals, fun n _ => hvalues globals n⟩
  | cons b outer => exact ⟨rfl, fun _ _ => rfl, hnames b, fun n _ => hvalues b n⟩

/-- What was done in the scope of a block leaves only what was done around it. -/
theorem leave (h : Declares A ds c.enter c') : Declares A [] c c'.leave := by
  have houter : c.enter.outer = c.stack := rfl
  obtain ⟨hnames, hvalues, -, -⟩ := h
  rw [houter] at hnames hvalues
  have hleave : c'.leave.stack = c'.outer := by
    obtain ⟨locals, globals⟩ := c'
    cases locals with
    | nil => simp [outer, stack] at hnames
    | cons b locals => rfl
  rw [← hleave] at hnames hvalues
  exact of_stack hnames hvalues

end Declares

/-- No block is opened for good, or closed. -/
theorem Declares.length_locals {A ds : List String} {c c' : Chain} (h : Declares A ds c c') :
    c'.locals.length = c.locals.length := by
  have hlength := congrArg List.length h.outerNames
  simpa [outer, stack] using hlength

end Chain

/-! ## Steps -/

namespace Exec

variable {α β : Type} {A ds : List String}

/-- However the step ends, it changes the scopes only as `A` allows; if it succeeds, it declares
the names `ds` in the current scope, and if it fails, none. -/
def Scoped (A ds : List String) (x : Exec α) : Prop :=
  ∀ m, match x m with
    | .ok _ m' => m.scopes.Declares A ds m'.scopes
    | .error _ m' => m.scopes.Declares A [] m'.scopes

/-- The scopes in which a step ends. -/
def scopesOf : EStateM.Result Failure Machine α → Chain
  | .ok _ m | .error _ m => m.scopes

namespace Scoped

theorem pure (a : α) : Scoped A [] (Pure.pure a : Exec α) :=
  fun m => .refl m.scopes

theorem throw (f : Failure) : Scoped A ds (MonadExcept.throw f : Exec α) :=
  fun m => .refl m.scopes

theorem bind {x : Exec α} {next : α → Exec β} (hx : Scoped A [] x)
    (hnext : ∀ a, Scoped A ds (next a)) : Scoped A ds (x >>= next) := by
  intro m
  have hm := hx m
  cases hrun : x m with
  | ok a m₁ =>
    rw [hrun] at hm
    have hm₁ := hnext a m₁
    rw [bind_apply_of_ok hrun]
    split <;> simp_all only
    · exact hm.trans hm₁
    · exact hm.trans hm₁
  | error f m₁ =>
    rw [hrun] at hm
    rw [bind_apply_of_error hrun]
    exact hm

theorem ofExcept (r : Except Failure α) : Scoped A [] (Exec.ofExcept r) := by
  cases r with
  | ok a => exact pure a
  | error f => exact throw f

theorem getVariable (name : Token) : Scoped A [] (Exec.getVariable name) := by
  intro m
  rw [getVariable_apply]
  cases m.scopes.get? name.lexeme <;> exact .refl m.scopes

theorem setVariable {name : Token} (hname : name.lexeme ∈ A) (value : Value) :
    Scoped A [] (Exec.setVariable name value) := by
  intro m
  rw [setVariable_apply]
  cases hassign : m.scopes.assign? name.lexeme value with
  | none => exact .refl m.scopes
  | some scopes => exact .assign hname hassign

theorem declare (name : Token) (value : Value) : Scoped A [name.lexeme] (Exec.declare name value) :=
  fun m => .define m.scopes name.lexeme value

theorem printLine (line : String) : Scoped A [] (Exec.printLine line) :=
  fun m => .refl m.scopes

theorem inScope {body : Exec Unit}
    (h : ∀ m : Machine, ∃ ds, m.scopes.Declares A ds (scopesOf (body m))) :
    Scoped A [] (Exec.inScope body) := by
  intro m
  obtain ⟨ds, hbody⟩ := h { m with scopes := m.scopes.enter }
  rw [Exec.inScope]
  cases hrun : body { m with scopes := m.scopes.enter } <;>
  · rw [hrun] at hbody
    exact hbody.leave

end Scoped
end Exec

open Exec (Scoped)

/-! ## Trees -/

variable {A : List String}

theorem Node.eval_scoped {node : Node} (h : node.targets ⊆ A) : Scoped A [] node.eval := by
  fun_induction Node.eval node with
  | case1 name value ih =>
    rw [targets, List.cons_subset] at h
    exact (ih h.2).bind fun v => (Scoped.setVariable h.1 v).bind fun _ => .pure v
  | case2 left operator right ihleft ihright =>
    rw [targets, List.append_subset] at h
    exact (ihleft h.1).bind fun l => (ihright h.2).bind fun r => .ofExcept _
  | case3 inner ih =>
    rw [targets] at h
    exact ih h
  | case4 value => exact .pure value
  | case5 operator right ih =>
    rw [targets] at h
    exact (ih h).bind fun r => .ofExcept _
  | case6 name => exact .getVariable name
  | case7 node => exact .throw _

theorem Node.initialValue_scoped {node : Node} (h : node.targets ⊆ A) :
    Scoped A [] node.initialValue := by
  unfold Node.initialValue
  split
  · exact .pure _
  · exact Node.eval_scoped h

mutual

theorem Node.exec_scoped (node : Node) (h : node.targets ⊆ A) :
    Scoped A node.declared node.exec := by
  unfold Node.exec
  split
  · next nodes =>
    rw [Node.targets] at h
    exact .inScope (Node.execAll_declares nodes h)
  · next expr =>
    rw [Node.targets] at h
    exact (Node.eval_scoped h).bind fun _ => .pure ()
  · next expr =>
    rw [Node.targets] at h
    exact (Node.eval_scoped h).bind fun v => .printLine v.display
  · next name initializer =>
    rw [Node.targets] at h
    exact (Node.initialValue_scoped h).bind fun v => .declare name v
  · exact .throw _

/-- The statements of a block declare some names in its scope. -/
theorem Node.execAll_declares : (nodes : List Node) → Node.targetsAll nodes ⊆ A → ∀ m : Machine,
    ∃ ds, m.scopes.Declares A ds (Exec.scopesOf (Node.execAll nodes m))
  | [], _, m => ⟨[], .refl m.scopes⟩
  | node :: rest, h, m => by
    rw [Node.targetsAll, List.append_subset] at h
    have hnode := Node.exec_scoped node h.1 m
    rw [Node.execAll]
    cases hrun : node.exec m with
    | ok a m₁ =>
      rw [hrun] at hnode
      obtain ⟨ds, hrest⟩ := Node.execAll_declares rest h.2 m₁
      rw [bind_apply_of_ok hrun]
      exact ⟨_, hnode.trans hrest⟩
    | error f m₁ =>
      rw [hrun] at hnode
      rw [bind_apply_of_error hrun]
      exact ⟨[], hnode⟩

end

/-! ## Runs -/

namespace Chain

/-- The statements that a run executes to their end. -/
def completed (c : Chain) : List Node → List Node
  | [] => []
  | node :: rest =>
    match c.run [node] with
    | (m, none) => node :: m.scopes.completed rest
    | (_, some _) => []

theorem run_cons_of_ok {c : Chain} {node : Node} {m : Machine} (h : c.run [node] = (m, none))
    (rest : List Node) :
    c.run (node :: rest) =
      ((m.scopes.run rest).1.printedAfter m.printed, (m.scopes.run rest).2) :=
  run_append_of_ok h rest

theorem run_cons_of_error {c : Chain} {node : Node} {m : Machine} {f : Failure}
    (h : c.run [node] = (m, some f)) (rest : List Node) : c.run (node :: rest) = (m, some f) :=
  run_append_of_error h rest

theorem run_singleton_declares {node : Node} (h : node.targets ⊆ A) (c : Chain) :
    (∀ m, c.run [node] = (m, none) → c.Declares A node.declared m.scopes) ∧
    ∀ m f, c.run [node] = (m, some f) → c.Declares A [] m.scopes := by
  have hnode := node.exec_scoped h ⟨c, []⟩
  rw [run_singleton]
  cases hrun : node.exec ⟨c, []⟩ <;>
  · rw [hrun] at hnode
    simpa using hnode

/-- A run declares the names of the statements that it executes to their end. -/
theorem run_declares {nodes : List Node} (h : Node.targetsAll nodes ⊆ A) (c : Chain) :
    c.Declares A ((c.completed nodes).flatMap Node.declared) (c.run nodes).1.scopes := by
  induction nodes generalizing c with
  | nil => exact .refl c
  | cons node rest ih =>
    rw [Node.targetsAll, List.append_subset] at h
    obtain ⟨hok, herror⟩ := run_singleton_declares h.1 c
    rw [completed]
    split
    · next m hrun =>
      rw [run_cons_of_ok hrun]
      exact (hok m hrun).trans (ih h.2 m.scopes)
    · next m f hrun =>
      rw [run_cons_of_error hrun]
      exact herror m f hrun

theorem completed_prefix (c : Chain) (nodes : List Node) : c.completed nodes <+: nodes := by
  induction nodes generalizing c with
  | nil => exact List.prefix_rfl
  | cons node rest ih =>
    rw [completed]
    split
    · next m _ => exact List.cons_prefix_cons.mpr ⟨rfl, ih m.scopes⟩
    · exact List.nil_prefix

/-- All statements are executed to their end if and only if the run does not fail. -/
theorem completed_eq_iff {c : Chain} {nodes : List Node} :
    c.completed nodes = nodes ↔ (c.run nodes).2 = none := by
  induction nodes generalizing c with
  | nil => simp [completed, run, Node.execAll, pure, EStateM.pure]
  | cons node rest ih =>
    rw [completed]
    split
    · next m hrun => rw [run_cons_of_ok hrun, List.cons_inj_right, ih]
    · next m f hrun => simp [run_cons_of_error hrun]

/-- A value that differs in a scope is one of the names `A`, or of the names `ds` in the current
scope. -/
theorem Declares.mem_of_ne {A ds : List String} {c c' : Chain} (h : Declares A ds c c') {i : Nat}
    {b b' : Bindings} {n : String} (hb : c.stack[i]? = some b) (hb' : c'.stack[i]? = some b')
    (hne : b'.get? n ≠ b.get? n) : n ∈ A ∨ i = 0 ∧ n ∈ ds := by
  by_cases hA : n ∈ A
  · exact .inl hA
  rw [stack_eq] at hb hb'
  cases i with
  | zero =>
    cases hb
    cases hb'
    by_cases hds : n ∈ ds
    · exact .inr ⟨rfl, hds⟩
    · exact absurd (h.values n hA hds) hne
  | succ i =>
    have hvalues := congrArg (·[i]?) (h.outerValues n hA)
    rw [List.getElem?_cons_succ] at hb hb'
    simp only [List.getElem?_map, hb, hb', Option.map_some, Option.some.injEq] at hvalues
    exact absurd hvalues hne

end Chain

/-! ## Engines -/

namespace Engine

/-- The engine behind batches of trees that are interpreted one after the other, whatever comes of
each. -/
def interpretAll (s : Engine) (batches : List (List Node)) : Engine :=
  batches.foldl (fun s nodes => (s.interpret nodes).engine) s

theorem length_locals_interpret (s : Engine) (nodes : List Node) :
    (s.interpret nodes).engine.scopes.locals.length = s.scopes.locals.length := by
  rw [interpret_eq]
  exact (Chain.run_declares (List.Subset.refl _) s.scopes).length_locals

theorem length_locals_interpretAll (s : Engine) (batches : List (List Node)) :
    (s.interpretAll batches).scopes.locals.length = s.scopes.locals.length := by
  induction batches generalizing s with
  | nil => rfl
  | cons nodes batches ih => exact (ih _).trans (s.length_locals_interpret nodes)

end Engine

/-- However the execution of trees ends, also of malformed ones: no scope is opened for good, or
closed, so that the current scope is the one it was; the scopes around it have the names that they
had, in the same order; the current scope has its old names, and behind them the new names of the
declarations that were executed in it, in the order of execution; and a value differs in a scope
only if its name is assigned to somewhere in the trees, or if the scope is the current one and such
a declaration declares the name. So an engine that interprets one batch of trees after the other is
always at its global scope. -/
theorem run_keeps_scopes (c : Chain) (nodes : List Node) :
    let c' := (c.run nodes).1.scopes
    let declared := (c.completed nodes).flatMap Node.declared
    c'.locals.length = c.locals.length ∧
    c'.outer.map Bindings.names = c.outer.map Bindings.names ∧
    c'.current.names = extendNames c.current.names declared ∧
    c.completed nodes <+: nodes ∧ (c.completed nodes = nodes ↔ (c.run nodes).2 = none) ∧
    (∀ i b b' n, c.stack[i]? = some b → c'.stack[i]? = some b' → b'.get? n ≠ b.get? n →
      n ∈ Node.targetsAll nodes ∨ i = 0 ∧ n ∈ declared) ∧
    ∀ fatal batches, ((Engine.empty fatal).interpretAll batches).scopes.atGlobals = true := by
  have hrun := Chain.run_declares (List.Subset.refl (Node.targetsAll nodes)) c
  refine ⟨hrun.length_locals, hrun.outerNames, hrun.names, c.completed_prefix nodes,
    Chain.completed_eq_iff, fun i b b' n hb hb' => hrun.mem_of_ne hb hb', fun fatal batches => ?_⟩
  have hlength := (Engine.empty fatal).length_locals_interpretAll batches
  exact List.isEmpty_iff.mpr (List.length_eq_zero_iff.mp hlength)

/-- A block that assigns to a global variable and then fails at a node that is no statement. What it
declared is gone, and what it assigned stays. -/
theorem failing_block_keeps_names :
    let name (lexeme : String) : Token := ⟨.identifier, lexeme, .nil, 1⟩
    let c : Chain := ⟨[[]], [("g", .nil)]⟩
    let nodes := [.var (name "b") .absent,
      .block [.var (name "c") .absent, .expression (.assign (name "g") (.literal (.bool true))),
        .unknownStmt]]
    let c' := (c.run nodes).1.scopes
    (c.run nodes).2 = some (.misplaced (.of .execute .unknownStmt)) ∧
    c'.locals.length = 1 ∧ c'.current.names = extendNames [] ["b"] ∧
    c.stack[1]? = some [("g", .nil)] ∧ c'.stack[1]? = some [("g", .bool true)] ∧
    "g" ∈ Node.targetsAll nodes := by
  intro name c nodes c'
  obtain ⟨hlength, -, hnames, -, -, hvalues, -⟩ := run_keeps_scopes c nodes
  have hbefore : c.stack[1]? = some [("g", .nil)] := rfl
  have hafter : c'.stack[1]? = some [("g", .bool true)] := rfl
  refine ⟨rfl, hlength, hnames, hbefore, hafter, ?_⟩
  rcases hvalues 1 _ _ "g" hbefore hafter (by decide) with hmem | ⟨hzero, -⟩
  · exact hmem
  · cases hzero

end LoxLang
