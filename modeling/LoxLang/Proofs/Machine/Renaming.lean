import LoxLang.Machine.Basic

/-! # Executions with other failures

Two executions may do the same up to the way in which they name their failures. `renameFailure`
changes the failures of a step and nothing else; it goes through everything that steps are made
of. -/

namespace LoxLang

variable {ε ε' α β : Type}

/-- The same step, with its failures renamed. -/
def renameFailure (rename : ε → ε') (x : EStateM ε Machine α) : EStateM ε' Machine α := fun m =>
  match x m with
  | .ok a m => .ok a m
  | .error e m => .error (rename e) m

variable {rename : ε → ε'}

theorem renameFailure_of_ok {x : EStateM ε Machine α} {m m' : Machine} {a : α}
    (h : x m = .ok a m') : renameFailure rename x m = .ok a m' := by
  rw [renameFailure, h]

theorem renameFailure_of_error {x : EStateM ε Machine α} {m m' : Machine} {e : ε}
    (h : x m = .error e m') : renameFailure rename x m = .error (rename e) m' := by
  rw [renameFailure, h]

theorem renameFailure_bind (x : EStateM ε Machine α) (next : α → EStateM ε Machine β) :
    renameFailure rename (x >>= next) =
      renameFailure rename x >>= fun a => renameFailure rename (next a) := by
  funext m
  simp only [renameFailure, bind, EStateM.bind]
  cases x m <;> rfl

theorem bind_apply_of_ok {x : EStateM ε Machine α} {m m' : Machine} {a : α}
    (h : x m = .ok a m') (next : α → EStateM ε Machine β) : (x >>= next) m = next a m' := by
  simp only [bind, EStateM.bind, h]

theorem bind_apply_of_error {x : EStateM ε Machine α} {m m' : Machine} {e : ε}
    (h : x m = .error e m') (next : α → EStateM ε Machine β) :
    (x >>= next) m = .error e m' := by
  simp only [bind, EStateM.bind, h]

theorem get_apply (m : Machine) : (get : EStateM ε Machine Machine) m = .ok m m := rfl

namespace Exec

theorem getVariable_apply (name : Token) (m : Machine) :
    getVariable name m = match m.scopes.get? name.lexeme with
      | some value => .ok value m
      | none => .error (.runtime ⟨.undefinedVariable, name⟩) m := by
  rw [getVariable, bind_apply_of_ok (get_apply m)]
  cases m.scopes.get? name.lexeme <;> rfl

theorem setVariable_apply (name : Token) (value : Value) (m : Machine) :
    setVariable name value m = match m.scopes.assign? name.lexeme value with
      | some scopes => .ok () { m with scopes }
      | none => .error (.runtime ⟨.undefinedVariable, name⟩) m := by
  rw [setVariable, bind_apply_of_ok (get_apply m)]
  cases m.scopes.assign? name.lexeme value <;> rfl

end Exec
end LoxLang
