import LoxLang.Proofs.Engine.Record
import LoxLang.Proofs.Scoping.Resolution

/-! # Looking names up is lexical scoping

While a program runs, the names that each open scope binds are known from the text: they are those
that the statements in front of the current place declare (`Fits`). So the innermost scope that
binds a name is the one at the distance to which the name is resolved, and a program does the same
whether its names are looked up in the chain of scopes or are resolved before it runs
(`interpret_eq_runResolved`). -/

namespace LoxLang

/-! ## Scopes at a distance -/

theorem Bindings.has_define_of_has {b : Bindings} {name : String} (h : b.has name = true)
    (value : Value) : (b.define name value).has = b.has := by
  funext other
  rw [has_define]
  by_cases hother : other = name
  · rw [hother, h, Bool.or_true]
  · simp [hother]

namespace Chain

/-- The distance to the innermost scope that binds a name. -/
def nearest? (c : Chain) (name : String) : Option Nat := c.locals.findIdx? (·.has name)

theorem findSome?_get? (ls : List Bindings) (g : Bindings) (name : String) :
    (ls ++ [g]).findSome? (·.get? name) = ((⟨ls, g⟩ : Chain).scopeAt
      (ls.findIdx? (·.has name))).get? name := by
  induction ls with
  | nil =>
    rw [List.nil_append, List.findSome?_singleton]
    rfl
  | cons b ls ih =>
    rw [List.cons_append, List.findSome?_cons, List.findIdx?_cons, ih]
    cases hb : b.get? name with
    | some value =>
      have hhas : b.has name = true := by rw [Bindings.has, hb]; rfl
      rw [if_pos hhas]
      exact hb.symm
    | none =>
      have hhas : ¬b.has name = true := by rw [Bindings.has, hb]; decide
      rw [if_neg hhas]
      cases ls.findIdx? (·.has name) <;> rfl

theorem get?_eq (c : Chain) (name : String) :
    c.get? name = (c.scopeAt (c.nearest? name)).get? name :=
  findSome?_get? c.locals c.globals name

theorem assignIn?_eq (ls : List Bindings) (name : String) (value : Value) :
    assignIn? name value ls =
      (ls.findIdx? (·.has name)).map fun i => ls.modify i (Bindings.define name value) := by
  induction ls with
  | nil => rfl
  | cons b ls ih =>
    rw [assignIn?, List.findIdx?_cons, ih]
    split
    · rfl
    · cases ls.findIdx? (·.has name) <;> rfl

/-- The nearest scope binds the name, unless it is the global one. -/
theorem has_scopeAt_nearest? {c : Chain} {name : String} {i : Nat} (h : c.nearest? name = some i) :
    (c.scopeAt (some i)).has name = true := by
  obtain ⟨hi, hhas, -⟩ := List.findIdx?_eq_some_iff_getElem.mp h
  rw [scopeAt, List.getD_eq_getElem?_getD, List.getElem?_eq_getElem hi]
  exact hhas

theorem assign?_eq (c : Chain) (name : String) (value : Value) :
    c.assign? name value =
      if (c.scopeAt (c.nearest? name)).has name then
        some (c.defineAt (c.nearest? name) name value)
      else none := by
  rw [assign?, assignIn?_eq]
  cases hnearest : c.nearest? name with
  | none =>
    rw [nearest?] at hnearest
    rw [hnearest]
    rfl
  | some i =>
    rw [if_pos (has_scopeAt_nearest? hnearest)]
    rw [nearest?] at hnearest
    rw [hnearest]
    rfl

end Chain

/-! ## The names in scope -/

/-- The scopes bind the names that are declared in front of the place, and the global one in
addition those that it had bound at the start. -/
structure Fits (initial : Bindings) (p : Position) (c : Chain) : Prop where
  locals : c.locals.map Bindings.has = p.blocks.map Stmt.anyDeclares
  globals : ∀ name, c.globals.has name = (initial.has name || Stmt.anyDeclares p.program name)

theorem Stmt.anyDeclares_concat (ss : List Stmt) (s : Stmt) (name : String) :
    anyDeclares (ss ++ [s]) name = (anyDeclares ss name || s.declares name) := by
  simp [anyDeclares]

namespace Fits

variable {initial : Bindings} {p : Position} {c : Chain}

theorem start (initial : Bindings) : Fits initial .start ⟨[], initial⟩ :=
  ⟨rfl, fun _ => (Bool.or_false _).symm⟩

/-- The nearest scope that binds a name is the one to which the name is resolved. -/
theorem nearest?_eq (h : Fits initial p c) (name : String) : c.nearest? name = p.distance? name := by
  have hlocals := congrArg (List.findIdx? fun has => has name) h.locals
  rw [List.findIdx?_map, List.findIdx?_map] at hlocals
  exact hlocals

theorem enter (h : Fits initial p c) : Fits initial p.enter c.enter where
  locals := congrArg _ h.locals
  globals := h.globals

theorem leave {earlier : List Stmt} (h : Fits initial { p with blocks := earlier :: p.blocks } c) :
    Fits initial p c.leave where
  locals := by
    rw [Chain.leave, List.map_tail, h.locals]
    rfl
  globals := h.globals

/-- Behind a statement, the current scope binds in addition what the statement declares. -/
theorem behind {s : Stmt} {c' : Chain} (h : Fits initial p c)
    (hnil : c.locals = [] → c'.locals = [] ∧
      ∀ name, c'.globals.has name = (c.globals.has name || s.declares name))
    (hcons : ∀ b outer, c.locals = b :: outer → ∃ b', c' = ⟨b' :: outer, c.globals⟩ ∧
      ∀ name, b'.has name = (b.has name || s.declares name)) : Fits initial (p.behind s) c' := by
  have hlocals := h.locals
  unfold Position.behind
  split
  · next hblocks =>
    rw [hblocks, List.map_nil, List.map_eq_nil_iff] at hlocals
    obtain ⟨hlocals', hglobals⟩ := hnil hlocals
    refine ⟨by rw [hlocals', hblocks]; rfl, fun name => ?_⟩
    rw [hglobals, h.globals, Stmt.anyDeclares_concat, Bool.or_assoc]
  · next earlier outer hblocks =>
    rw [hblocks, List.map_cons, List.map_eq_cons_iff] at hlocals
    obtain ⟨b, bs, hc, hb, hbs⟩ := hlocals
    obtain ⟨b', rfl, hb'⟩ := hcons b bs hc
    refine ⟨?_, h.globals⟩
    have hhead : b'.has = Stmt.anyDeclares (earlier ++ [s]) := by
      funext name
      rw [hb', hb, Stmt.anyDeclares_concat]
    rw [List.map_cons, List.map_cons, hhead, hbs]

theorem behind_of_not_declares {s : Stmt} (h : Fits initial p c)
    (hs : ∀ name, s.declares name = false) : Fits initial (p.behind s) c := by
  refine h.behind (fun hnil => ⟨hnil, fun name => ?_⟩) fun b outer hc => ⟨b, ?_, fun name => ?_⟩
  · rw [hs, Bool.or_false]
  · rw [← hc]
  · rw [hs, Bool.or_false]

theorem define (h : Fits initial p c) (name : Token) (initializer : Option Expr) (value : Value) :
    Fits initial (p.behind (.var name initializer)) (c.define name.lexeme value) := by
  refine h.behind (fun hnil => ?_) fun b outer hc => ⟨b.define name.lexeme value, ?_, ?_⟩
  · rw [Chain.define, hnil]
    refine ⟨rfl, fun other => ?_⟩
    rw [Bindings.has_define, Bool.or_comm]
    rfl
  · rw [Chain.define, hc]
  · intro other
    rw [Bindings.has_define, Bool.or_comm]
    rfl

/-- Rebinding a name keeps the names that are bound. -/
theorem defineAt {distance? : Option Nat} {name : String} (h : Fits initial p c)
    (hhas : (c.scopeAt distance?).has name = true) (value : Value) :
    Fits initial p (c.defineAt distance? name value) := by
  cases distance? with
  | none =>
    refine ⟨h.locals, fun other => ?_⟩
    rw [← h.globals other]
    exact congrFun (Bindings.has_define_of_has hhas value) other
  | some i =>
    refine ⟨?_, h.globals⟩
    rw [← h.locals]
    refine List.ext_getElem? fun j => ?_
    rw [Chain.defineAt, List.getElem?_map, List.getElem?_map, List.getElem?_modify]
    cases hj : c.locals[j]? with
    | none => rfl
    | some b =>
      by_cases hij : i = j
      · subst hij
        rw [Chain.scopeAt, List.getD_eq_getElem?_getD, hj, Option.getD_some] at hhas
        simp [Bindings.has_define_of_has hhas]
      · simp [hij]

end Fits

/-! ## Execution -/

theorem applyBinary_ne_undefinedVariable (operator : Token) (left right : Value) (token : Token) :
    applyBinary operator left right ≠ .error (.runtime ⟨.undefinedVariable, token⟩) := by
  unfold applyBinary add arithmetic numbersExpected
  intro h
  repeat' split at h
  all_goals simp at h

theorem applyUnary_ne_undefinedVariable (operator : Token) (right : Value) (token : Token) :
    applyUnary operator right ≠ .error (.runtime ⟨.undefinedVariable, token⟩) := by
  unfold applyUnary numbersExpected
  intro h
  repeat' split at h
  all_goals simp at h

/-- Why a program fails, if it does so at a name: the name means a global variable that was neither
bound at the start nor declared in front of the occurrence. -/
def DirectFailure.Justified (initial : Bindings) : DirectFailure → Prop
  | undefined o => o.distance? = none ∧ initial.has o.name.lexeme = false ∧
      Stmt.anyDeclares o.position.program o.name.lexeme = false
  | other failure => ∀ token, failure ≠ .runtime ⟨.undefinedVariable, token⟩

variable {α β : Type} {initial : Bindings} {p q r : Position}

/-- From scopes that fit the place `p`, the two steps do the same, and end in scopes that fit the
place `q` or by a failure that is justified. -/
def Simulates (initial : Bindings) (p q : Position) (x : Direct α) (y : Exec α) : Prop :=
  ∀ m, Fits initial p m.scopes → y m = renameFailure DirectFailure.toFailure x m ∧
    match x m with
    | .ok _ m' => Fits initial q m'.scopes
    | .error f _ => f.Justified initial

namespace Simulates

theorem pure (a : α) : Simulates initial p p (Pure.pure a) (Pure.pure a) :=
  fun _ hm => ⟨rfl, hm⟩

theorem bind {x : Direct α} {y : Exec α} {next : α → Direct β} {next' : α → Exec β}
    (hx : Simulates initial p q x y) (hnext : ∀ a, Simulates initial q r (next a) (next' a)) :
    Simulates initial p r (x >>= next) (y >>= next') := by
  intro m hm
  obtain ⟨heq, hend⟩ := hx m hm
  rw [renameFailure_bind]
  cases hrun : x m with
  | ok a m₁ =>
    rw [hrun] at hend
    rw [renameFailure_of_ok hrun] at heq
    rw [bind_apply_of_ok heq, bind_apply_of_ok hrun, bind_apply_of_ok (renameFailure_of_ok hrun)]
    exact hnext a m₁ hend
  | error f m₁ =>
    rw [hrun] at hend
    rw [renameFailure_of_error hrun] at heq
    rw [bind_apply_of_error heq, bind_apply_of_error hrun,
      bind_apply_of_error (renameFailure_of_error hrun)]
    exact ⟨rfl, hend⟩

theorem mono {x : Direct α} {y : Exec α} (h : Simulates initial p q x y)
    (hq : ∀ c, Fits initial q c → Fits initial r c) : Simulates initial p r x y := by
  intro m hm
  obtain ⟨heq, hend⟩ := h m hm
  refine ⟨heq, ?_⟩
  cases hrun : x m with
  | ok a m₁ =>
    rw [hrun] at hend
    exact hq _ hend
  | error f m₁ =>
    rw [hrun] at hend
    exact hend

theorem ofExcept {result : Except Failure α}
    (h : ∀ token, result ≠ .error (.runtime ⟨.undefinedVariable, token⟩)) :
    Simulates initial p p (Direct.ofExec (Exec.ofExcept result)) (Exec.ofExcept result) := by
  intro m hm
  cases result with
  | ok a => exact ⟨rfl, hm⟩
  | error f => exact ⟨rfl, fun token hf => h token (hf ▸ rfl)⟩

theorem modify {change : Machine → Machine}
    (h : ∀ m, Fits initial p m.scopes → Fits initial q (change m).scopes) :
    Simulates initial p q (Direct.ofExec (modify change : Exec Unit)) (modify change) :=
  fun m hm => ⟨rfl, h m hm⟩

/-- A block is executed in a scope that fits its start. -/
theorem inScope {body : Direct Unit} {body' : Exec Unit} {earlier : List Stmt}
    (h : Simulates initial p.enter { p with blocks := earlier :: p.blocks } body body') :
    Simulates initial p p (Direct.inScope body) (Exec.inScope body') := by
  intro m hm
  obtain ⟨heq, hend⟩ := h { m with scopes := m.scopes.enter } hm.enter
  cases hrun : body { m with scopes := m.scopes.enter } with
  | ok a m₁ =>
    rw [hrun] at hend
    rw [renameFailure_of_ok hrun] at heq
    have hdirect : Direct.inScope body m = .ok a { m₁ with scopes := m₁.scopes.leave } := by
      rw [Direct.inScope, hrun]
    rw [Exec.inScope, heq, renameFailure_of_ok hdirect, hdirect]
    exact ⟨rfl, hend.leave⟩
  | error f m₁ =>
    rw [hrun] at hend
    rw [renameFailure_of_error hrun] at heq
    have hdirect : Direct.inScope body m = .error f { m₁ with scopes := m₁.scopes.leave } := by
      rw [Direct.inScope, hrun]
    rw [Exec.inScope, heq, renameFailure_of_error hdirect, hdirect]
    exact ⟨rfl, hend⟩

end Simulates

/-- A name that no scope binds means a global variable, which was not bound. -/
theorem Fits.justified {c : Chain} {o : Occurrence} (h : Fits initial o.position c)
    (ho : (c.scopeAt o.distance?).has o.name.lexeme = false) :
    (DirectFailure.undefined o).Justified initial := by
  have hnearest : c.nearest? o.name.lexeme = o.distance? := h.nearest?_eq _
  cases hdistance : o.distance? with
  | some i =>
    rw [hdistance] at hnearest ho
    rw [Chain.has_scopeAt_nearest? hnearest] at ho
    cases ho
  | none =>
    rw [hdistance] at ho
    have hglobals : c.globals.has o.name.lexeme = false := ho
    rw [h.globals, Bool.or_eq_false_iff] at hglobals
    exact ⟨hdistance, hglobals⟩

theorem simulates_read (o : Occurrence) :
    Simulates initial o.position o.position (Direct.read o) (Exec.getVariable o.name) := by
  intro m hm
  have hget : m.scopes.get? o.name.lexeme =
      (m.scopes.scopeAt o.distance?).get? o.name.lexeme := by
    rw [Chain.get?_eq, hm.nearest?_eq]
    rfl
  unfold renameFailure Direct.read
  rw [Exec.getVariable_apply, hget, bind_apply_of_ok (get_apply m)]
  cases hvalue : (m.scopes.scopeAt o.distance?).get? o.name.lexeme with
  | some value => exact ⟨rfl, hm⟩
  | none =>
    refine ⟨rfl, hm.justified ?_⟩
    rw [Bindings.has, hvalue]
    rfl

theorem simulates_write (o : Occurrence) (value : Value) :
    Simulates initial o.position o.position (Direct.write o value)
      (Exec.setVariable o.name value) := by
  intro m hm
  have hassign : m.scopes.assign? o.name.lexeme value =
      if (m.scopes.scopeAt o.distance?).has o.name.lexeme then
        some (m.scopes.defineAt o.distance? o.name.lexeme value)
      else none := by
    rw [Chain.assign?_eq, hm.nearest?_eq]
    rfl
  unfold renameFailure Direct.write
  rw [Exec.setVariable_apply, hassign, bind_apply_of_ok (get_apply m)]
  cases hhas : (m.scopes.scopeAt o.distance?).has o.name.lexeme with
  | true => exact ⟨rfl, hm.defineAt hhas value⟩
  | false => exact ⟨rfl, hm.justified hhas⟩

theorem Expr.simulates (p : Position) (e : Expr) :
    Simulates initial p p (e.resolve p).eval e.toNode.eval := by
  induction e with
  | assign name value ih =>
    refine ih.bind fun v => ?_
    exact (simulates_write ⟨name, p⟩ v).bind fun _ => .pure v
  | binary left operator right ihleft ihright =>
    refine ihleft.bind fun l => ihright.bind fun r => ?_
    exact .ofExcept (applyBinary_ne_undefinedVariable operator l r)
  | grouping inner ih => exact ih
  | literal value => exact .pure value
  | unary operator right ih =>
    exact ih.bind fun r => .ofExcept (applyUnary_ne_undefinedVariable operator r)
  | «variable» name => exact simulates_read ⟨name, p⟩

/-- The place behind statements. -/
def Position.behindAll (p : Position) (ss : List Stmt) : Position := ss.foldl behind p

theorem Position.behindAll_enter (p : Position) (earlier ss : List Stmt) :
    behindAll { p with blocks := earlier :: p.blocks } ss =
      { p with blocks := (earlier ++ ss) :: p.blocks } := by
  induction ss generalizing earlier with
  | nil => rw [List.append_nil]; rfl
  | cons s ss ih =>
    have hs := ih (earlier ++ [s])
    rwa [List.append_assoc, List.singleton_append] at hs

theorem simulates_declare (name : Token) (initializer : Option Expr) (value : Value) :
    Simulates initial p (p.behind (.var name initializer)) (Direct.ofExec (Exec.declare name value))
      (Exec.declare name value) :=
  .modify fun _ hm => hm.define name initializer value

theorem simulates_printLine (line : String) :
    Simulates initial p p (Direct.ofExec (Exec.printLine line)) (Exec.printLine line) :=
  .modify fun _ hm => hm

mutual

theorem Stmt.simulates (p : Position) : (s : Stmt) →
    Simulates initial p (p.behind s) (s.resolve p).exec s.toNode.exec
  | .block ss => by
    have hbody : Simulates initial p.enter (p.enter.behindAll ss) _ _ := Stmt.simulatesAll p.enter ss
    rw [Position.enter, Position.behindAll_enter] at hbody
    rw [Stmt.resolve, ResolvedStmt.exec, Stmt.toNode, Node.exec]
    exact hbody.inScope.mono fun _ hc => hc.behind_of_not_declares fun _ => rfl
  | .expression e => by
    have he : Simulates initial p p _ _ := Expr.simulates p e
    rw [Stmt.resolve, ResolvedStmt.exec, Stmt.toNode, Node.exec]
    exact (he.bind fun _ => .pure ()).mono fun _ hc => hc.behind_of_not_declares fun _ => rfl
  | .print e => by
    have he : Simulates initial p p _ _ := Expr.simulates p e
    rw [Stmt.resolve, ResolvedStmt.exec, Stmt.toNode, Node.exec]
    refine (he.bind fun v => simulates_printLine v.display).mono fun _ hc => ?_
    exact hc.behind_of_not_declares fun _ => rfl
  | .var name none => by
    rw [Stmt.resolve, Option.map_none, ResolvedStmt.exec, Stmt.toNode, Option.elim_none, Node.exec]
    exact simulates_declare name none .nil
  | .var name (some e) => by
    rw [Stmt.resolve, Option.map_some, ResolvedStmt.exec, Stmt.toNode, Option.elim_some, Node.exec,
      e.initialValue_toNode]
    exact (Expr.simulates p e).bind fun v => simulates_declare name (some e) v

theorem Stmt.simulatesAll (p : Position) : (ss : List Stmt) →
    Simulates initial p (p.behindAll ss) (ResolvedStmt.execAll (Stmt.resolveAll p ss))
      (Node.execAll (Stmt.toNodes ss))
  | [] => by
    rw [Stmt.resolveAll, ResolvedStmt.execAll, Stmt.toNodes, Node.execAll]
    exact .pure ()
  | s :: ss => by
    rw [Stmt.resolveAll, ResolvedStmt.execAll, Stmt.toNodes, Node.execAll]
    exact (Stmt.simulates p s).bind fun _ => Stmt.simulatesAll (p.behind s) ss

end

theorem run_eq_runResolved (globals : Bindings) (ss : List Stmt) :
    Chain.run ⟨[], globals⟩ (Stmt.toNodes ss) =
      ((runResolved globals ss).1, (runResolved globals ss).2.map DirectFailure.toFailure) ∧
    ∀ f, (runResolved globals ss).2 = some f → f.Justified globals := by
  obtain ⟨heq, hend⟩ := Stmt.simulatesAll .start ss ⟨⟨[], globals⟩, []⟩ (Fits.start globals)
  unfold Chain.run runResolved
  rw [heq, renameFailure]
  cases hrun : ResolvedStmt.execAll (Stmt.resolveAll .start ss) ⟨⟨[], globals⟩, []⟩ with
  | ok a m =>
    refine ⟨rfl, fun f hf => ?_⟩
    cases hf
  | error f m =>
    rw [hrun] at hend
    refine ⟨rfl, fun g hg => ?_⟩
    cases hg
    exact hend

/-- A program does the same, from every global scope, whether its names are looked up while it runs
or are resolved before: it prints the same, leaves the same scopes, and ends by the same error, if
by any. If that says that a variable is undefined, the occurrence at which it was raised is resolved
to the global scope, and its name was neither bound at the start nor declared by an earlier
statement of the program. -/
theorem interpret_eq_runResolved (log : Log) (globals : Bindings) (ss : List Stmt) :
    let o := Engine.interpret ⟨log, ⟨[], globals⟩⟩ (Stmt.toNodes ss)
    let (m, f?) := runResolved globals ss
    let error? := (f?.map DirectFailure.toFailure).bind Failure.runtimeError?
    o.printed = m.printed ∧ o.engine.scopes = m.scopes ∧
    o.engine.log.runtimeErrors = log.runtimeErrors ++ error?.toList ∧
    o.fault = (f?.map DirectFailure.toFailure).bind Failure.fault? ∧
    ∀ e, error? = some e → e.kind = .undefinedVariable →
      ∃ n : Occurrence, f? = some (.undefined n) ∧ e.token = n.name ∧ n.distance? = none ∧
        globals.has n.name.lexeme = false ∧
        ∀ s ∈ n.position.program, s.declares n.name.lexeme = false := by
  obtain ⟨hrun, hjustified⟩ := run_eq_runResolved globals ss
  rw [Engine.interpret_eq, hrun]
  generalize runResolved globals ss = direct at hjustified
  obtain ⟨m, f?⟩ := direct
  refine ⟨rfl, rfl, rfl, rfl, fun e he hkind => ?_⟩
  cases f? with
  | none => cases he
  | some f =>
    have hf := hjustified f rfl
    cases f with
    | undefined n =>
      cases he
      obtain ⟨hdistance, hinitial, hprogram⟩ := hf
      exact ⟨n, rfl, rfl, hdistance, hinitial, by simpa [Stmt.anyDeclares] using hprogram⟩
    | other f =>
      obtain ⟨cause, token, rfl, rfl⟩ : ∃ cause token, f = .runtime ⟨cause, token⟩ ∧
          e = RuntimeError.toTokenError ⟨cause, token⟩ := by
        cases f with
        | runtime error =>
          cases he
          exact ⟨error.cause, error.token, rfl, rfl⟩
        | misplaced | noOperation => cases he
      have hcause : cause = .undefinedVariable := by
        cases cause <;> first | rfl | cases hkind
      exact absurd (by rw [hcause]) (hf token)

end LoxLang
