import LoxLang.Engine
import LoxLang.Proofs.Tree.Legal
import LoxLang.Proofs.Tree.Origin

/-! # Programs fail only at run time

Executing a legal tree, from whatever scopes, ends without a failure or with a runtime error that
one of its expressions has at its own token (`Chain.run_failsWith`): no node is misplaced, and no
operator is unknown to the machine. The parser only builds legal trees, so no source gets an engine
to fault (`programs_fail_only_at_run_time`). -/

namespace LoxLang

open Float.Model (UnpackedFloat)

/-- The failure is one that a program can have. -/
def Failure.IsRuntime (f : Failure) : Prop := ∃ e, f = .runtime e

/-- The operators that only numbers are given to. -/
def numericOperators : List Kind :=
  [.minus, .star, .slash, .greater, .greaterEqual, .less, .lessEqual]

/-- The failures that a legal expression whose operands have values can have at its own token. -/
inductive Expr.FailsWith : Expr → Failure → Prop
  | assign {name : Token} (value : Expr) : name.kind = .identifier →
    FailsWith (.assign name value) (.runtime ⟨.undefinedVariable, name⟩)
  | variable {name : Token} : name.kind = .identifier →
    FailsWith (.variable name) (.runtime ⟨.undefinedVariable, name⟩)
  | unary {operator : Token} (right : Expr) : operator.kind = .minus →
    FailsWith (.unary operator right) (.runtime ⟨.operandNotNumber, operator⟩)
  | add {operator : Token} (left right : Expr) : operator.kind = .plus →
    FailsWith (.binary left operator right) (.runtime ⟨.operandsNotAddable, operator⟩)
  | numeric {operator : Token} (left right : Expr) : operator.kind ∈ numericOperators →
    FailsWith (.binary left operator right) (.runtime ⟨.operandsNotNumbers, operator⟩)
  | divide {operator : Token} (left right : Expr) : operator.kind = .slash →
    FailsWith (.binary left operator right) (.runtime ⟨.divisionByZero, operator⟩)

theorem Expr.FailsWith.isRuntime {e : Expr} {f : Failure} (h : e.FailsWith f) : f.IsRuntime := by
  cases h <;> exact ⟨_, rfl⟩

namespace Exec

variable {α β : Type} {P Q : Failure → Prop}

/-- From every state, the step fails only with failures that satisfy `P`. -/
def OnlyFails (P : Failure → Prop) (x : Exec α) : Prop :=
  ∀ m f m', x m = .error f m' → P f

namespace OnlyFails

theorem mono {x : Exec α} (h : OnlyFails P x) (hPQ : ∀ f, P f → Q f) : OnlyFails Q x :=
  fun m f m' hread => hPQ f (h m f m' hread)

theorem pure (a : α) : OnlyFails P (Pure.pure a : Exec α) := by
  intro m f m' h
  cases h

theorem bind {x : Exec α} {next : α → Exec β} (hx : OnlyFails P x)
    (hnext : ∀ a, OnlyFails P (next a)) : OnlyFails P (x >>= next) := by
  intro m f m' h
  change EStateM.bind x next m = .error f m' at h
  unfold EStateM.bind at h
  cases hread : x m with
  | ok a m₁ =>
    rw [hread] at h
    exact hnext a m₁ f m' h
  | error g m₁ =>
    rw [hread] at h
    cases h
    exact hx m f m' hread

theorem ofExcept {r : Except Failure α} (h : ∀ f, r = .error f → P f) :
    OnlyFails P (Exec.ofExcept r) := by
  intro m f m' hread
  cases r with
  | ok a => cases hread
  | error g =>
    cases hread
    exact h f rfl

theorem get : OnlyFails P (MonadState.get : Exec Machine) := by
  intro m f m' h
  cases h

theorem modify (change : Machine → Machine) :
    OnlyFails P (MonadState.modifyGet fun m => ((), change m) : Exec Unit) := by
  intro m f m' h
  cases h

theorem throw {f : Failure} (h : P f) : OnlyFails P (MonadExcept.throw f : Exec α) := by
  intro m g m' hread
  cases hread
  exact h

theorem getVariable {name : Token} (h : P (.runtime ⟨.undefinedVariable, name⟩)) :
    OnlyFails P (Exec.getVariable name) := by
  unfold Exec.getVariable
  refine get.bind fun m => ?_
  split
  · exact pure _
  · exact throw h

theorem setVariable {name : Token} (h : P (.runtime ⟨.undefinedVariable, name⟩)) (value : Value) :
    OnlyFails P (Exec.setVariable name value) := by
  unfold Exec.setVariable
  refine get.bind fun m => ?_
  split
  · exact modify _
  · exact throw h

theorem inScope {body : Exec Unit} (h : OnlyFails P body) : OnlyFails P (Exec.inScope body) := by
  intro m f m' hread
  unfold Exec.inScope at hread
  cases hbody : body { m with scopes := m.scopes.enter } with
  | ok a m₁ =>
    rw [hbody] at hread
    cases hread
  | error g m₁ =>
    rw [hbody] at hread
    cases hread
    exact h _ f m₁ hbody

end OnlyFails
end Exec

/-! ## Operations -/

theorem add_failsWith {operator : Token} {l r : Value} {f : Failure}
    (hop : operator.kind = .plus) (h : add operator l r = .error f) (left right : Expr) :
    (Expr.binary left operator right).FailsWith f := by
  unfold add at h
  split at h <;> cases h
  exact .add left right hop

/-- The operators that are left to numbers are known, so that two numbers fail only by a divisor
that is zero. -/
theorem arithmetic_failsWith {operator : Token} {x y : Number} {f : Failure}
    (hop : operator.kind ∈ numericOperators) (h : arithmetic operator x y = .error f)
    (left right : Expr) : (Expr.binary left operator right).FailsWith f := by
  unfold arithmetic at h
  split at h
  · cases h
  · cases h
  · next hslash =>
    split at h
    · cases h
      exact .divide left right hslash
    · cases h
  · cases h
  · cases h
  · cases h
  · cases h
  · simp_all [numericOperators]

theorem Kind.mem_numericOperators {kind : Kind} (h : kind.isBinaryOperator = true)
    (hplus : kind ≠ .plus) (hequal : kind ≠ .equalEqual) (hbang : kind ≠ .bangEqual) :
    kind ∈ numericOperators := by
  unfold isBinaryOperator at h
  split at h <;> first | contradiction | decide

theorem applyBinary_failsWith {operator : Token} {l r : Value} {f : Failure}
    (hop : operator.kind.isBinaryOperator = true) (h : applyBinary operator l r = .error f)
    (left right : Expr) : (Expr.binary left operator right).FailsWith f := by
  unfold applyBinary at h
  split at h
  · next hplus => exact add_failsWith hplus h left right
  · cases h
  · cases h
  · next hplus hequal hbang =>
    have hnumeric := Kind.mem_numericOperators hop hplus hequal hbang
    split at h
    · exact arithmetic_failsWith hnumeric h left right
    · cases h
      exact .numeric left right hnumeric

theorem applyUnary_failsWith {operator : Token} {r : Value} {f : Failure}
    (hop : operator.kind.isUnaryOperator = true) (h : applyUnary operator r = .error f)
    (right : Expr) : (Expr.unary operator right).FailsWith f := by
  unfold applyUnary at h
  split at h
  · cases h
  · next hbang =>
    have hminus : operator.kind = .minus := by
      unfold Kind.isUnaryOperator at hop
      split at hop <;> first | contradiction | assumption
    split at h <;> cases h
    exact .unary right hminus

/-- The number is zero, of either sign. -/
def Number.IsZero (x : Number) : Prop := ∃ s, x.toModel.unpack = .zero s

theorem Number.beq_zero_iff (x : Number) : (x == 0) = true ↔ x.IsZero := by
  have hzero : (0 : Number).toModel.unpack = .zero .positive := rfl
  have hbeq : (x == 0) = UnpackedFloat.beq x.toModel.unpack (.zero .positive) := by
    rw [← hzero]
    rfl
  rw [hbeq, IsZero]
  cases x.toModel.unpack with
  | zero s => exact iff_of_true rfl ⟨s, rfl⟩
  | notANumber =>
    refine iff_of_false (fun h => ?_) (by rintro ⟨_, ⟨⟩⟩)
    cases h
  | infinity s | finite s m e h =>
    refine iff_of_false (fun h => ?_) (by rintro ⟨_, ⟨⟩⟩)
    cases s <;> cases h

/-- A quotient is only taken of a divisor that is not zero. -/
theorem applyBinary_slash {operator : Token} (hop : operator.kind = .slash) (x y : Number) :
    (y.IsZero ∧ applyBinary operator (.number x) (.number y) =
      .error (.runtime ⟨.divisionByZero, operator⟩)) ∨
    (¬ y.IsZero ∧ applyBinary operator (.number x) (.number y) = .ok (.number (x / y))) := by
  rw [← Number.beq_zero_iff]
  simp only [applyBinary, arithmetic, hop]
  split
  · next hy => exact .inl ⟨hy, rfl⟩
  · next hy => exact .inr ⟨hy, rfl⟩

/-! ## Trees -/

/-- The expression or one inside it can have the failure at its own token. -/
def Expr.CanFailWith (e : Expr) (f : Failure) : Prop := ∃ sub ∈ e.subtrees, sub.FailsWith f

theorem Expr.eval_onlyFails {e : Expr} (h : e.Legal) :
    Exec.OnlyFails e.CanFailWith e.toNode.eval := by
  induction e with
  | assign name value ih =>
    refine ((ih h.2).mono fun f => ?_).bind fun v => ?_
    · exact fun ⟨sub, hsub, hf⟩ => ⟨sub, .tail _ hsub, hf⟩
    · exact (Exec.OnlyFails.setVariable ⟨_, .head _, .assign value h.1⟩ v).bind fun _ => .pure v
  | binary left operator right ihleft ihright =>
    refine ((ihleft h.1).mono fun f => ?_).bind fun l =>
      ((ihright h.2.2).mono fun f => ?_).bind fun r => ?_
    · exact fun ⟨sub, hsub, hf⟩ => ⟨sub, .tail _ (List.mem_append_left _ hsub), hf⟩
    · exact fun ⟨sub, hsub, hf⟩ => ⟨sub, .tail _ (List.mem_append_right _ hsub), hf⟩
    · exact .ofExcept fun f hf => ⟨_, .head _, applyBinary_failsWith h.2.1 hf left right⟩
  | grouping inner ih => exact (ih h).mono fun f ⟨sub, hsub, hf⟩ => ⟨sub, .tail _ hsub, hf⟩
  | literal value => exact .pure value
  | unary operator right ih =>
    refine ((ih h.2).mono fun f => ?_).bind fun r => ?_
    · exact fun ⟨sub, hsub, hf⟩ => ⟨sub, .tail _ hsub, hf⟩
    · exact .ofExcept fun f hf => ⟨_, .head _, applyUnary_failsWith h.1 hf right⟩
  | «variable» name => exact .getVariable ⟨_, .head _, .variable h⟩

def Stmt.CanFailWith (s : Stmt) (f : Failure) : Prop := ∃ e ∈ s.exprs, e.CanFailWith f

def Stmt.AnyCanFailWith (ss : List Stmt) (f : Failure) : Prop :=
  ∃ e ∈ Stmt.exprsAll ss, e.CanFailWith f

mutual

theorem Stmt.exec_onlyFails : (s : Stmt) → s.Legal →
    Exec.OnlyFails s.CanFailWith s.toNode.exec
  | .block statements, h => (Stmt.execAll_onlyFails statements h).inScope
  | .expression e, h =>
    ((Expr.eval_onlyFails h).mono fun _ hf => ⟨e, .head _, hf⟩).bind fun _ => .pure ()
  | .print e, h =>
    ((Expr.eval_onlyFails h).mono fun _ hf => ⟨e, .head _, hf⟩).bind fun _ => .modify _
  | .var _ none, _ => .modify _
  | .var _ (some e), h => by
    rw [toNode, Option.elim_some, Node.exec, e.initialValue_toNode]
    exact ((Expr.eval_onlyFails (h.2 e rfl)).mono fun _ hf => ⟨e, .head _, hf⟩).bind fun _ =>
      .modify _

theorem Stmt.execAll_onlyFails : (ss : List Stmt) → Stmt.AllLegal ss →
    Exec.OnlyFails (Stmt.AnyCanFailWith ss) (Node.execAll (Stmt.toNodes ss))
  | [], _ => .pure ()
  | s :: ss, h => by
    refine ((Stmt.exec_onlyFails s h.1).mono fun f => ?_).bind fun _ =>
      (Stmt.execAll_onlyFails ss h.2).mono fun f => ?_
    · exact fun ⟨e, he, hf⟩ => ⟨e, List.mem_append_left _ he, hf⟩
    · exact fun ⟨e, he, hf⟩ => ⟨e, List.mem_append_right _ he, hf⟩

end

/-- Legal statements fail only by what one of their expressions has at its own token. -/
theorem Chain.run_failsWith {ss : List Stmt} (h : Stmt.AllLegal ss) (scopes : Chain) :
    ∀ f ∈ (scopes.run (Stmt.toNodes ss)).2, Stmt.AnyCanFailWith ss f := by
  intro f hf
  unfold Chain.run at hf
  split at hf
  · cases hf
  · next g m hread =>
    cases hf
    exact Stmt.execAll_onlyFails ss h _ f m hread

theorem Chain.run_isRuntime {ss : List Stmt} (h : Stmt.AllLegal ss) (scopes : Chain) :
    ∀ f ∈ (scopes.run (Stmt.toNodes ss)).2, f.IsRuntime := by
  intro f hf
  obtain ⟨e, -, sub, -, hsub⟩ := run_failsWith h scopes f hf
  exact hsub.isRuntime

/-! ## Engines -/

theorem Engine.interpret_fault_eq_none {s : Engine} {nodes : List Node}
    (h : ∀ f ∈ (s.scopes.run nodes).2, f.IsRuntime) : (s.interpret nodes).fault = none := by
  unfold interpret
  split
  · rfl
  · rfl
  · next m f hf hrun =>
    obtain ⟨e, rfl⟩ := h f (by rw [hrun]; rfl)
    exact absurd rfl (hf e)

theorem Engine.allLegal_echoed {ss : List Stmt} (h : Stmt.AllLegal ss) :
    Stmt.AllLegal (echoed ss) := by
  unfold echoed
  split
  · exact h
  · exact h

theorem Engine.run_fault_eq_none (s : Engine) (source : String) (echo : Bool) :
    (s.run source echo).fault = none := by
  unfold run
  have hlegal : Stmt.AllLegal (s.parse source).1 := parse_legal _
  generalize s.parse source = parsed at hlegal
  obtain ⟨ss, s⟩ := parsed
  dsimp only
  split
  · rfl
  · refine interpret_fault_eq_none (Chain.run_isRuntime ?_ _)
    split
    · exact allLegal_echoed hlegal
    · exact hlegal

theorem RuntimeCause.kind_mem (cause : RuntimeCause) :
    cause.kind ∈ [.typeMismatch, .divisionByZero, .undefinedVariable] := by
  cases cause <;> decide

/-- No source gets an engine to fault. Whatever the parser returns for a list of tokens, be it with
errors, its execution from any scopes completes, or fails by a type mismatch, a division by zero or
an undefined variable; and a quotient is only taken of a divisor that is not zero. -/
theorem programs_fail_only_at_run_time :
    (∀ (s : Engine) (source : String) (echo : Bool), (s.run source echo).fault = none) ∧
    (∀ (ts : List Token) (scopes : Chain),
      (scopes.run (Stmt.toNodes (parse ts).statements)).2 = none ∨
      ∃ e, (scopes.run (Stmt.toNodes (parse ts).statements)).2 = some (.runtime e) ∧
        e.cause.kind ∈ [.typeMismatch, .divisionByZero, .undefinedVariable]) ∧
    ∀ operator : Token, operator.kind = .slash → ∀ x y : Number,
      (y.IsZero ∧ applyBinary operator (.number x) (.number y) =
        .error (.runtime ⟨.divisionByZero, operator⟩)) ∨
      (¬ y.IsZero ∧ applyBinary operator (.number x) (.number y) = .ok (.number (x / y))) := by
  refine ⟨Engine.run_fault_eq_none, fun ts scopes => ?_, fun operator => applyBinary_slash⟩
  have hruntime := Chain.run_isRuntime (parse_legal ts) scopes
  cases hrun : (scopes.run (Stmt.toNodes (parse ts).statements)).2 with
  | none => exact .inl rfl
  | some f =>
    obtain ⟨e, rfl⟩ := hruntime f hrun
    exact .inr ⟨e, rfl, e.cause.kind_mem⟩

end LoxLang
