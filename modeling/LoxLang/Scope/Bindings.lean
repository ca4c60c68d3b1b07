import LoxLang.Value

/-! # Bindings

The variables of one scope with their values, in the order of their first definition. -/

namespace LoxLang

abbrev Bindings := List (String × Value)

namespace Bindings

def get? (b : Bindings) (name : String) : Option Value := b.lookup name

/-- Whether a name is bound, to `nil` or anything else. -/
def has (b : Bindings) (name : String) : Bool := (b.get? name).isSome

/-- Binds a name. A name that is bound already keeps its place. -/
def define (name : String) (value : Value) : Bindings → Bindings
  | [] => [(name, value)]
  | (other, old) :: rest =>
    if other = name then (name, value) :: rest else (other, old) :: define name value rest

def names (b : Bindings) : List String := b.map Prod.fst

theorem get?_cons (other : String) (old : Value) (rest : Bindings) (name : String) :
    get? ((other, old) :: rest) name = if name = other then some old else get? rest name := by
  unfold get?
  rw [List.lookup_cons]
  split <;> simp_all

theorem mem_names_iff {b : Bindings} {name : String} : name ∈ b.names ↔ b.has name = true := by
  induction b with
  | nil => simp [names, has, get?]
  | cons entry rest ih =>
    obtain ⟨first, value⟩ := entry
    have hnames : names ((first, value) :: rest) = first :: names rest := rfl
    rw [hnames, List.mem_cons, has, get?_cons]
    split
    · next h => simp [h]
    · next h => simpa [h, has] using ih

/-- Defining a name gives it the value, and no other name a new one. -/
theorem get?_define (b : Bindings) (name other : String) (value : Value) :
    (b.define name value).get? other = if other = name then some value else b.get? other := by
  induction b with
  | nil => exact get?_cons name value [] other
  | cons entry rest ih =>
    obtain ⟨first, old⟩ := entry
    unfold define
    split
    · next h =>
      subst h
      rw [get?_cons, get?_cons]
      split <;> rfl
    · next h =>
      rw [get?_cons, get?_cons, ih]
      split
      · next ho =>
        rw [if_neg (ho ▸ h)]
      · rfl

theorem has_define (b : Bindings) (name other : String) (value : Value) :
    (b.define name value).has other = (decide (other = name) || b.has other) := by
  unfold has
  rw [get?_define]
  split <;> simp_all

/-- A new name comes last; a name that is bound keeps its place. -/
theorem names_define (b : Bindings) (name : String) (value : Value) :
    (b.define name value).names = if b.has name then b.names else b.names ++ [name] := by
  induction b with
  | nil => rfl
  | cons entry rest ih =>
    obtain ⟨first, old⟩ := entry
    unfold define
    by_cases h : first = name
    · subst h
      simp [names, has, get?_cons]
    · have hn : name ≠ first := fun hne => h hne.symm
      have hhas : has ((first, old) :: rest) name = has rest name := by
        unfold has
        rw [get?_cons, if_neg hn]
      rw [if_neg h, hhas]
      unfold names at ih ⊢
      rw [List.map_cons, ih]
      split <;> rfl

/-- The bindings in a listing, between braces. -/
def inspect (b : Bindings) : String :=
  let entries := b.map fun (name, value) => Text.quoted name ++ ": " ++ value.inspect
  "\x7b" ++ String.intercalate ", " entries ++ "\x7d"

end Bindings
end LoxLang
