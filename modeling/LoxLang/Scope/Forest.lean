import LoxLang.Machine.Failure
import LoxLang.Scope.Bindings

/-! # Forests of scopes

Scopes that are created one after the other, each a root or inside an older one, and that all stay
alive. A name means the binding in the nearest scope, going outwards, that has one. -/

namespace LoxLang

/-- A scope with its place in a forest. -/
structure Scope where
  bindings : Bindings
  /-- The number of the scope around it; a root has none. -/
  enclosing : Option Nat

/-- Scopes by number, in the order of their creation. -/
structure Forest where
  scopes : List Scope
  /-- A scope lies inside an older one, so that going outwards ends. -/
  older : ∀ (i : Nat) (s : Scope) (p : Nat),
    scopes[i]? = some s → s.enclosing = some p → p < i

namespace Forest

/-- One root scope without bindings. -/
def single : Forest where
  scopes := [⟨[], none⟩]
  older i s p hi hp := by
    cases i with
    | zero =>
      cases hi
      cases hp
    | succ i => simp at hi

def size (f : Forest) : Nat := f.scopes.length

/-- The own bindings of a scope. -/
def bindings (f : Forest) (e : Nat) : Bindings :=
  match f.scopes[e]? with
  | some s => s.bindings
  | none => []

/-- The number of the scope around a scope. -/
def enclosing? (f : Forest) (e : Nat) : Option Nat :=
  match f.scopes[e]? with
  | some s => s.enclosing
  | none => none

theorem enclosing?_lt {f : Forest} {e p : Nat} (h : f.enclosing? e = some p) : p < e := by
  unfold enclosing? at h
  split at h
  · next s hs => exact f.older e s p hs h
  · cases h

/-- Creates a scope inside the given one, or a root. -/
def add (f : Forest) (enclosing : Option Nat) (h : ∀ p, enclosing = some p → p < f.size) :
    Forest where
  scopes := f.scopes ++ [⟨[], enclosing⟩]
  older i s p hi hp := by
    rw [List.getElem?_append] at hi
    split at hi
    · exact f.older i s p hi hp
    · next hsize =>
      have hs : s = ⟨[], enclosing⟩ := by
        simpa using List.mem_of_getElem? hi
      subst hs
      exact Nat.lt_of_lt_of_le (h p hp) (Nat.le_of_not_lt hsize)

/-- Creates a scope inside the given one, if there is such a one, or a root. -/
def add? (f : Forest) : Option Nat → Option Forest
  | none => some (f.add none fun _ h => nomatch h)
  | some p =>
    if h : p < f.size then some (f.add (some p) fun _ hq => Option.some.inj hq ▸ h) else none

/-- Changes the own bindings of a scope. -/
def update (f : Forest) (e : Nat) (change : Bindings → Bindings) : Forest where
  scopes := f.scopes.modify e fun s => { s with bindings := change s.bindings }
  older i s p hi hp := by
    rw [List.getElem?_modify] at hi
    obtain ⟨t, ht, rfl⟩ := Option.map_eq_some_iff.1 hi
    refine f.older i t p ht ?_
    split at hp <;> exact hp

theorem enclosing?_update (f : Forest) (e : Nat) (change : Bindings → Bindings) (i : Nat) :
    (f.update e change).enclosing? i = f.enclosing? i := by
  unfold enclosing? update
  rw [List.getElem?_modify]
  cases f.scopes[i]? with
  | none => rfl
  | some s => by_cases he : e = i <;> simp [he]

/-- Only the given scope changes. -/
theorem bindings_update (f : Forest) (e : Nat) (change : Bindings → Bindings) (i : Nat) :
    (f.update e change).bindings i =
      if e = i ∧ i < f.size then change (f.bindings i) else f.bindings i := by
  unfold bindings update size
  rw [List.getElem?_modify]
  by_cases h : i < f.scopes.length
  · rw [List.getElem?_eq_getElem h]
    by_cases he : e = i <;> simp [he, h]
  · rw [List.getElem?_eq_none (Nat.le_of_not_lt h), if_neg (fun hi => h hi.2)]
    rfl

/-- The scopes from a scope outwards, itself first. -/
def chain (f : Forest) (e : Nat) : List Nat :=
  e :: match _h : f.enclosing? e with
    | some p => chain f p
    | none => []
termination_by e
decreasing_by exact enclosing?_lt _h

/-- Changing bindings moves no scope. -/
theorem chain_update (f : Forest) (e : Nat) (change : Bindings → Bindings) (i : Nat) :
    (f.update e change).chain i = f.chain i := by
  induction i using Nat.strongRecOn with
  | ind i ih =>
    rw [chain, chain]
    refine congrArg (i :: ·) ?_
    split
    · next p hp =>
      rw [enclosing?_update] at hp
      split
      · next q hq =>
        cases hp.symm.trans hq
        exact ih p (enclosing?_lt hp)
      · next hq => cases hp.symm.trans hq
    · next hp =>
      rw [enclosing?_update] at hp
      split
      · next q hq => cases hp.symm.trans hq
      · rfl

/-- The nearest scope, going outwards, that binds a name. -/
def resolve? (f : Forest) (e : Nat) (name : String) : Option Nat :=
  (f.chain e).find? fun i => (f.bindings i).has name

def define (f : Forest) (e : Nat) (name : String) (value : Value) : Forest :=
  f.update e (Bindings.define name value)

/-- The value of a name, seen from a scope. -/
def get? (f : Forest) (e : Nat) (name : String) : Option Value :=
  (f.chain e).findSome? fun i => (f.bindings i).get? name

/-- Rebinds a name in the nearest scope that binds it; it never declares one. -/
def assign? (f : Forest) (e : Nat) (name : String) (value : Value) : Option Forest :=
  (f.resolve? e name).map fun i => f.define i name value

/-- The value of the variable that a token names, seen from a scope. -/
def read (f : Forest) (e : Nat) (name : Token) : Except RuntimeError Value :=
  match f.get? e name.lexeme with
  | some value => .ok value
  | none => .error ⟨.undefinedVariable, name⟩

/-- Rebinds the variable that a token names, seen from a scope. -/
def write (f : Forest) (e : Nat) (name : Token) (value : Value) : Except RuntimeError Forest :=
  match f.assign? e name.lexeme value with
  | some f => .ok f
  | none => .error ⟨.undefinedVariable, name⟩

/-- A scope in a listing, with those around it. -/
def inspect (f : Forest) (e : Nat) : String :=
  (f.chain e).foldr
    (fun i outer => "Environment(" ++ (f.bindings i).inspect ++ ", enclosing=" ++ outer ++ ")")
    "None"

end Forest
end LoxLang
