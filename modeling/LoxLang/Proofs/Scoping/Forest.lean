import LoxLang.Scope.Forest
import Mathlib.Data.List.Chain
import Mathlib.Data.List.Nodup

/-! # Reading and writing in a forest of scopes

Going outwards from a scope ends at a root, because every scope lies inside an older one
(`Forest.Nested`). Reading a name and rebinding it are two walks outwards, but both stop at the
nearest scope that binds the name (`Forest.Nearest`). What is read after a name was bound in a scope
`r` depends on whether looking for the name comes to `r` at all (`Forest.Reaches`); both ways of
binding a name, declaring and rebinding, are cases of this one law (`Forest.bound_define`).
`Forest.read_over_write` states the laws after every history of operations. -/

namespace LoxLang
namespace Forest

variable {f : Forest} {e r : Nat} {name other : String} {value : Value}

/-- The scope itself binds the name, to `nil` or anything else. -/
def Binds (f : Forest) (e : Nat) (name : String) : Prop := name ∈ (f.bindings e).names

/-- Going outwards from `e` leads to `r`, and no scope in front of `r` binds the name. -/
def Reaches (f : Forest) (e : Nat) (name : String) (r : Nat) : Prop :=
  ∃ inner outer, f.chain e = inner ++ r :: outer ∧ ∀ i ∈ inner, ¬f.Binds i name

/-- Of the scopes from `e` outwards, `r` is the nearest that binds the name. -/
def Nearest (f : Forest) (e : Nat) (name : String) (r : Nat) : Prop :=
  f.Reaches e name r ∧ f.Binds r name

/-- No scope from `e` outwards binds the name. -/
def Unbound (f : Forest) (e : Nat) (name : String) : Prop := ∀ i ∈ f.chain e, ¬f.Binds i name

/-! ## Chains -/

theorem chain_eq (f : Forest) (e : Nat) :
    f.chain e = e :: ((f.enclosing? e).map f.chain).getD [] := by
  rw [chain]
  split
  · next p hp => simp [hp]
  · next hp => simp [hp]

/-- The chain of a scope leads from it outwards to a root, over older and older scopes. -/
structure Nested (f : Forest) : Prop where
  head : ∀ e, (f.chain e).head? = some e
  linked : ∀ e, (f.chain e).IsChain fun i p => f.enclosing? i = some p
  root : ∀ e, ∀ i ∈ (f.chain e).getLast?, f.enclosing? i = none
  older : ∀ e, (f.chain e).Pairwise fun i p => p < i

theorem head?_chain (f : Forest) (e : Nat) : (f.chain e).head? = some e := by
  rw [chain_eq, List.head?_cons]

theorem isChain_chain (f : Forest) (e : Nat) :
    (f.chain e).IsChain fun i p => f.enclosing? i = some p := by
  induction e using Nat.strongRecOn with
  | ind e ih =>
    rw [chain_eq]
    cases hp : f.enclosing? e with
    | none => simp
    | some p =>
      refine List.isChain_cons.mpr ⟨fun i hi => ?_, ih p (enclosing?_lt hp)⟩
      rw [Option.map_some, Option.getD_some, head?_chain] at hi
      rw [hp, hi]

theorem enclosing?_getLast?_chain (f : Forest) (e : Nat) :
    ∀ i ∈ (f.chain e).getLast?, f.enclosing? i = none := by
  induction e using Nat.strongRecOn with
  | ind e ih =>
    rw [chain_eq]
    cases hp : f.enclosing? e with
    | none => simp [hp]
    | some p =>
      have hne : f.chain p ≠ [] := by simp [chain_eq f p]
      simpa [List.getLast?_cons_of_ne_nil hne] using ih p (enclosing?_lt hp)

theorem nested (f : Forest) : f.Nested where
  head := f.head?_chain
  linked := f.isChain_chain
  root := f.enclosing?_getLast?_chain
  older e := by
    have htrans : IsTrans Nat fun i p => p < i := ⟨fun _ _ _ hij hjk => Nat.lt_trans hjk hij⟩
    exact ((f.isChain_chain e).imp fun _ _ hp => enclosing?_lt hp).pairwise

/-! ## The nearest binding -/

theorem get?_bindings_eq_none_iff : (f.bindings e).get? name = none ↔ ¬f.Binds e name := by
  rw [Binds, Bindings.mem_names_iff, Bindings.has, Option.not_isSome_iff_eq_none]

theorem resolve?_eq_some_iff : f.resolve? e name = some r ↔ f.Nearest e name r := by
  simp only [resolve?, List.find?_eq_some_iff_append, Nearest, Reaches, Binds,
    Bindings.mem_names_iff, Bool.not_eq_true', Bool.not_eq_true]
  grind

theorem resolve?_eq_none_iff : f.resolve? e name = none ↔ f.Unbound e name := by
  simp only [resolve?, List.find?_eq_none, Unbound, Binds, Bindings.mem_names_iff]

/-- Reading goes to the scope that rebinding goes to. -/
theorem get?_eq (f : Forest) (e : Nat) (name : String) :
    f.get? e name = (f.resolve? e name).bind fun r => (f.bindings r).get? name := by
  rw [get?, resolve?]
  induction f.chain e with
  | nil => rfl
  | cons i outer ih =>
    rw [List.findSome?_cons, List.find?_cons, Bindings.has]
    cases hi : (f.bindings i).get? name with
    | some v => simp [hi]
    | none => simpa using ih

theorem get?_of_nearest (h : f.Nearest e name r) : f.get? e name = (f.bindings r).get? name := by
  rw [get?_eq, resolve?_eq_some_iff.mpr h, Option.bind_some]

theorem Nearest.exists_get? (h : f.Nearest e name r) :
    ∃ v, (name, v) ∈ f.bindings r ∧ f.get? e name = some v := by
  have hbound : (f.bindings r).get? name ≠ none := fun hnone => get?_bindings_eq_none_iff.mp hnone h.2
  obtain ⟨v, hv⟩ := Option.ne_none_iff_exists'.mp hbound
  obtain ⟨front, rest, hsplit, -⟩ := List.lookup_eq_some_iff.mp hv
  refine ⟨v, ?_, by rw [get?_of_nearest h, hv]⟩
  rw [hsplit]
  exact List.mem_append_right front List.mem_cons_self

theorem exists_nearest_or_unbound (f : Forest) (e : Nat) (name : String) :
    (∃ r, f.Nearest e name r) ∨ f.Unbound e name := by
  cases hr : f.resolve? e name with
  | some r => exact .inl ⟨r, resolve?_eq_some_iff.mp hr⟩
  | none => exact .inr (resolve?_eq_none_iff.mp hr)

theorem get?_eq_none_iff : f.get? e name = none ↔ f.Unbound e name := by
  rw [← resolve?_eq_none_iff, get?_eq]
  cases hr : f.resolve? e name with
  | none => simp
  | some r =>
    have hbinds := (resolve?_eq_some_iff.mp hr).2
    simpa [get?_bindings_eq_none_iff] using hbinds

/-! ## Binding a name in a scope -/

theorem bindings_define (hr : r < f.size) (i : Nat) :
    (f.define r name value).bindings i =
      if i = r then (f.bindings i).define name value else f.bindings i := by
  rw [define, bindings_update]
  by_cases hi : i = r
  · simp [hi, hr]
  · simp [hi, Ne.symm hi]

theorem get?_bindings_define (hr : r < f.size) (i : Nat) (other : String) :
    ((f.define r name value).bindings i).get? other =
      if i = r ∧ other = name then some value else (f.bindings i).get? other := by
  rw [bindings_define hr]
  by_cases hi : i = r
  · simp [hi, Bindings.get?_define]
  · simp [hi]

theorem get?_define_of_reaches (hr : r < f.size) (h : f.Reaches e name r) :
    (f.define r name value).get? e name = some value := by
  obtain ⟨inner, outer, hchain, hinner⟩ := h
  rw [get?, define, chain_update, hchain, List.findSome?_append, ← define]
  cases hsome : inner.findSome? fun i => ((f.define r name value).bindings i).get? name with
  | none => simp [get?_bindings_define hr]
  | some v =>
    obtain ⟨i, hi, hv⟩ := List.exists_of_findSome?_eq_some hsome
    have hnone := get?_bindings_eq_none_iff.mpr (hinner i hi)
    rw [get?_bindings_define hr, hnone] at hv
    split at hv <;> simp_all

/-- On the way over scopes of which none is `r`, or to another name, the new binding is not met. -/
theorem findSome?_define (hr : r < f.size) {is : List Nat} (h : other ≠ name ∨ r ∉ is) :
    (is.findSome? fun i => ((f.define r name value).bindings i).get? other) =
      is.findSome? fun i => (f.bindings i).get? other := by
  induction is with
  | nil => rfl
  | cons i is ih =>
    have hi : ¬(i = r ∧ other = name) := by
      rintro ⟨rfl, hother⟩
      simp [hother] at h
    have his : other ≠ name ∨ r ∉ is := h.imp_right fun hnot hmem => hnot (.tail i hmem)
    rw [List.findSome?_cons, List.findSome?_cons, get?_bindings_define hr, if_neg hi, ih his]

theorem get?_define_of_not_reaches (hr : r < f.size)
    (h : other ≠ name ∨ ¬f.Reaches e name r) :
    (f.define r name value).get? e other = f.get? e other := by
  have hchain : (f.define r name value).chain e = f.chain e := chain_update f r _ e
  rw [get?, get?, hchain]
  by_cases hpass : other ≠ name ∨ r ∉ f.chain e
  · exact findSome?_define hr hpass
  · -- A scope in front of `r` binds the name, and is met first, before and after.
    obtain ⟨rfl, hmem⟩ : other = name ∧ r ∈ f.chain e := by simpa using hpass
    obtain ⟨inner, outer, hsplit, hinner⟩ := List.eq_append_cons_of_mem hmem
    have hbinds : ∃ i ∈ inner, f.Binds i other := by
      by_contra hnone
      push Not at hnone
      exact h.elim (fun hne => hne rfl) fun hnot => hnot ⟨inner, outer, hsplit, hnone⟩
    have hsome : (inner.findSome? fun i => (f.bindings i).get? other) ≠ none := by
      obtain ⟨i, hi, hbinds⟩ := hbinds
      rw [Ne, List.findSome?_eq_none_iff]
      exact fun hnone => get?_bindings_eq_none_iff.mp (hnone i hi) hbinds
    obtain ⟨v, hv⟩ := Option.ne_none_iff_exists'.mp hsome
    rw [hsplit, List.findSome?_append, List.findSome?_append, findSome?_define hr (.inr hinner), hv]
    rfl

theorem names_define (hr : r < f.size) (i : Nat) :
    ((f.define r name value).bindings i).names =
      if i = r ∧ name ∉ (f.bindings i).names then (f.bindings i).names ++ [name]
      else (f.bindings i).names := by
  rw [bindings_define hr]
  by_cases hi : i = r
  · simp only [hi, if_true, Bindings.names_define, Bindings.mem_names_iff, true_and]
    split <;> simp_all
  · simp [hi]

theorem Binds.lt_size (h : f.Binds e name) : e < f.size := by
  by_contra hsize
  rw [Binds, bindings, List.getElem?_eq_none (Nat.le_of_not_lt hsize)] at h
  simp [Bindings.names] at h

/-! ## Creating a scope -/

theorem getElem?_scopes_add {enclosing : Option Nat} (h : ∀ p, enclosing = some p → p < f.size)
    (i : Nat) :
    (f.add enclosing h).scopes[i]? =
      if i = f.size then some ⟨[], enclosing⟩ else f.scopes[i]? := by
  rw [add, size]
  grind

theorem bindings_add {enclosing : Option Nat} (h : ∀ p, enclosing = some p → p < f.size) (i : Nat) :
    (f.add enclosing h).bindings i = f.bindings i := by
  rw [bindings, bindings, getElem?_scopes_add]
  by_cases hi : i = f.size
  · simp [hi, size]
  · rw [if_neg hi]

theorem enclosing?_add {enclosing : Option Nat} (h : ∀ p, enclosing = some p → p < f.size)
    (i : Nat) :
    (f.add enclosing h).enclosing? i = if i = f.size then enclosing else f.enclosing? i := by
  rw [enclosing?, enclosing?, getElem?_scopes_add]
  by_cases hi : i = f.size
  · simp [hi]
  · rw [if_neg hi, if_neg hi]

theorem chain_add {enclosing : Option Nat} (h : ∀ p, enclosing = some p → p < f.size) {i : Nat}
    (hi : i < f.size) : (f.add enclosing h).chain i = f.chain i := by
  induction i using Nat.strongRecOn with
  | ind i ih =>
    rw [chain_eq, chain_eq, enclosing?_add, if_neg (Nat.ne_of_lt hi)]
    cases hp : f.enclosing? i with
    | none => rfl
    | some p =>
      have hlt := enclosing?_lt hp
      simp [ih p hlt (Nat.lt_trans hlt hi)]

/-! ## The laws -/

/-- What can be done with a forest. -/
inductive Step where
  | new (enclosing : Option Nat)
  | define (e : Nat) (name : String) (value : Value)
  | get (e : Nat) (name : Token)
  | assign (e : Nat) (name : Token) (value : Value)

/-- The forest behind a step. A step that fails or that names no scope changes nothing. -/
def perform (f : Forest) : Step → Forest
  | .new enclosing => (f.add? enclosing).getD f
  | .define e name value => f.define e name value
  | .get _ _ => f
  | .assign e name value =>
    match f.write e name value with
    | .ok f => f
    | .error _ => f

/-- The forest behind steps. -/
def after (f : Forest) (steps : List Step) : Forest := steps.foldl perform f

/-- Reading the name fails, with the token in the error, if and only if it is unbound; else the
value in the nearest scope that binds it is read. In no case does it change anything. -/
structure Reads (f : Forest) (e : Nat) (name : Token) : Prop where
  undefined : f.read e name = .error ⟨.undefinedVariable, name⟩ ↔ f.Unbound e name.lexeme
  defined : ∀ r, f.Nearest e name.lexeme r →
    ∃ v, (name.lexeme, v) ∈ f.bindings r ∧ f.read e name = .ok v
  unchanged : f.perform (.get e name) = f

/-- In `f'` the name is bound to the value in the scope `r`, every other binding of a scope is the
one in `f`, and the value is read for the name from the scopes that see it; all else is read as in
`f`. -/
structure Bound (f : Forest) (r : Nat) (name : String) (value : Value) (sees : Nat → Prop)
    (f' : Forest) : Prop where
  here : (f'.bindings r).get? name = some value
  elsewhere : ∀ i other, i ≠ r ∨ other ≠ name →
    (f'.bindings i).get? other = (f.bindings i).get? other
  chain : ∀ i, f'.chain i = f.chain i
  seen : ∀ (e : Nat) (t : Token), t.lexeme = name → sees e → f'.read e t = .ok value
  unseen : ∀ (e : Nat) (t : Token), t.lexeme ≠ name ∨ ¬sees e → f'.read e t = f.read e t

/-- Rebinding the name fails, with the token in the error, if and only if it is unbound, and then
changes nothing; else it changes the one binding in the nearest scope that binds the name, which is
seen from the scopes of which this is the nearest, too. -/
structure Writes (f : Forest) (e : Nat) (name : Token) (value : Value) : Prop where
  undefined : f.write e name value = .error ⟨.undefinedVariable, name⟩ ↔ f.Unbound e name.lexeme
  unchanged : f.Unbound e name.lexeme → f.perform (.assign e name value) = f
  defined : ∀ r, f.Nearest e name.lexeme r → ∃ f', f.write e name value = .ok f' ∧
    f.perform (.assign e name value) = f' ∧
    Bound f r name.lexeme value (f.Nearest · name.lexeme r) f' ∧
    ∀ i, (f'.bindings i).names = (f.bindings i).names

/-- Declaring the name binds it in the scope `e`, behind the other names unless it is bound there
already. The binding is seen from the scopes from which `e` is reached. -/
structure Defines (f : Forest) (e : Nat) (name : String) (value : Value) (f' : Forest) : Prop where
  bound : Bound f e name value (f.Reaches · name e) f'
  names : ∀ i, (f'.bindings i).names =
    if i = e ∧ name ∉ (f.bindings i).names then (f.bindings i).names ++ [name]
    else (f.bindings i).names

/-- A new scope has the next number, lies inside the given one and binds nothing. The others stay as
they were. -/
structure Adds (f : Forest) (enclosing : Option Nat) (f' : Forest) : Prop where
  size : f'.size = f.size + 1
  enclosing : f'.enclosing? f.size = enclosing
  bindings : ∀ i, f'.bindings i = f.bindings i
  chain : ∀ i < f.size, f'.chain i = f.chain i
  read : ∀ i < f.size, ∀ t : Token, f'.read i t = f.read i t

theorem read_of_get?_eq_some {t : Token} (h : f.get? e t.lexeme = some value) :
    f.read e t = .ok value := by
  rw [read, h]

theorem read_congr {f' : Forest} {t : Token} (h : f'.get? e t.lexeme = f.get? e t.lexeme) :
    f'.read e t = f.read e t := by
  rw [read, read, h]

theorem reads (f : Forest) (e : Nat) (name : Token) : f.Reads e name where
  undefined := by
    rw [← get?_eq_none_iff, read]
    cases f.get? e name.lexeme <;> simp
  defined r hr := by
    obtain ⟨v, hmem, hget⟩ := hr.exists_get?
    exact ⟨v, hmem, read_of_get?_eq_some hget⟩
  unchanged := rfl

theorem bound_define (hr : r < f.size) (name : String) (value : Value) :
    Bound f r name value (f.Reaches · name r) (f.define r name value) where
  here := by rw [get?_bindings_define hr, if_pos ⟨rfl, rfl⟩]
  elsewhere i other h := by rw [get?_bindings_define hr, if_neg (by grind)]
  chain i := chain_update f r _ i
  seen e t ht hsees := by
    subst ht
    exact read_of_get?_eq_some (get?_define_of_reaches hr hsees)
  unseen e t h := read_congr (get?_define_of_not_reaches hr h)

theorem writes (f : Forest) (e : Nat) (name : Token) (value : Value) : f.Writes e name value where
  undefined := by
    rw [← resolve?_eq_none_iff, write, assign?]
    cases f.resolve? e name.lexeme <;> simp
  unchanged hunbound := by
    rw [perform, write, assign?, resolve?_eq_none_iff.mpr hunbound]
    rfl
  defined r hr := by
    have hwrite : f.write e name value = .ok (f.define r name.lexeme value) := by
      rw [write, assign?, resolve?_eq_some_iff.mpr hr]
      rfl
    have hsees : (f.Reaches · name.lexeme r) = (f.Nearest · name.lexeme r) :=
      funext fun i => propext (and_iff_left hr.2).symm
    refine ⟨_, hwrite, by rw [perform, hwrite], ?_, fun i => ?_⟩
    · exact hsees ▸ bound_define hr.2.lt_size name.lexeme value
    · rw [names_define hr.2.lt_size, if_neg]
      rintro ⟨rfl, hnot⟩
      exact hnot hr.2

theorem adds {enclosing : Option Nat} (h : ∀ p, enclosing = some p → p < f.size) :
    Adds f enclosing (f.perform (.new enclosing)) := by
  have hadd : f.perform (.new enclosing) = f.add enclosing h := by
    cases enclosing with
    | none => rfl
    | some p => simp [perform, add?, h p rfl]
  rw [hadd]
  refine ⟨by simp [size, add], by rw [enclosing?_add, if_pos rfl], bindings_add h,
    fun i hi => chain_add h hi, fun i hi t => read_congr ?_⟩
  rw [get?, get?, chain_add h hi]
  simp only [bindings_add h]

/-! ## Histories -/

/-- What a step can do: nothing, or bind a name in a scope, or create a scope. -/
theorem perform_cases (f : Forest) (step : Step) :
    f.perform step = f ∨
    (∃ r name value, r < f.size ∧ f.perform step = f.define r name value) ∨
    ∃ enclosing h, f.perform step = f.add enclosing h := by
  cases step with
  | new enclosing =>
    cases enclosing with
    | none => exact .inr (.inr ⟨none, nofun, rfl⟩)
    | some p =>
      by_cases hp : p < f.size
      · exact .inr (.inr ⟨some p, fun _ hq => Option.some.inj hq ▸ hp, by simp [perform, add?, hp]⟩)
      · exact .inl (by simp [perform, add?, hp])
  | define e name value =>
    by_cases he : e < f.size
    · exact .inr (.inl ⟨e, name, value, he, rfl⟩)
    · refine .inl ?_
      have hscopes : f.scopes.length ≤ e := Nat.le_of_not_lt he
      simp [perform, define, update, List.modify_eq_self hscopes]
  | get e name => exact .inl rfl
  | assign e name value =>
    rcases f.exists_nearest_or_unbound e name.lexeme with ⟨r, hr⟩ | hunbound
    · refine .inr (.inl ⟨r, name.lexeme, value, hr.2.lt_size, ?_⟩)
      rw [perform, write, assign?, resolve?_eq_some_iff.mpr hr]
      rfl
    · exact .inl ((f.writes e name value).unchanged hunbound)

/-- The names of every scope are distinct. -/
def DistinctNames (f : Forest) : Prop := ∀ i, (f.bindings i).names.Nodup

theorem distinctNames_perform (h : f.DistinctNames) (step : Step) :
    (f.perform step).DistinctNames := by
  intro i
  rcases f.perform_cases step with hstep | ⟨r, name, value, hr, hstep⟩ | ⟨enclosing, he, hstep⟩
  · rw [hstep]
    exact h i
  · rw [hstep, names_define hr]
    split
    · next hnew =>
      rw [← List.concat_eq_append, List.nodup_concat]
      exact ⟨hnew.2, h i⟩
    · exact h i
  · rw [hstep, bindings_add]
    exact h i

theorem distinctNames_after (h : f.DistinctNames) (steps : List Step) :
    (f.after steps).DistinctNames := by
  induction steps generalizing f with
  | nil => exact h
  | cons step steps ih => exact ih (distinctNames_perform h step)

/-- No step removes a name or moves one. -/
theorem names_perform (f : Forest) (step : Step) (i : Nat) :
    (f.bindings i).names <+: ((f.perform step).bindings i).names := by
  rcases f.perform_cases step with hstep | ⟨r, name, value, hr, hstep⟩ | ⟨enclosing, he, hstep⟩
  · simp [hstep]
  · rw [hstep, names_define hr]
    split
    · exact List.prefix_append _ _
    · exact List.prefix_rfl
  · simp [hstep, bindings_add]

theorem names_after (f : Forest) (steps : List Step) (i : Nat) :
    (f.bindings i).names <+: ((f.after steps).bindings i).names := by
  induction steps generalizing f with
  | nil => exact List.prefix_rfl
  | cons step steps ih => exact (f.names_perform step i).trans (ih (f.perform step))

/-- After every history: going outwards from a scope ends; reading and rebinding a name fail exactly
if it is unbound, and else treat the nearest binding, of which rebinding changes the value and
nothing else; what is read after a name was declared in a scope is the new value where this scope is
reached, and else what was read before; a new scope changes nothing in the others. In every scope the
names are distinct, and none is removed or moved by whatever follows. -/
theorem read_over_write (steps : List Step) :
    let f := single.after steps
    f.Nested ∧
    (∀ e name, f.Reads e name) ∧
    (∀ e name value, f.Writes e name value) ∧
    (∀ e < f.size, ∀ name value, f.Defines e name value (f.perform (.define e name value))) ∧
    (∀ enclosing, (∀ p, enclosing = some p → p < f.size) →
      f.Adds enclosing (f.perform (.new enclosing))) ∧
    f.DistinctNames ∧
    ∀ more i, (f.bindings i).names <+: ((f.after more).bindings i).names := by
  intro f
  have hsingle : single.DistinctNames := by
    intro i
    cases i <;> simp [bindings, single, Bindings.names]
  refine ⟨f.nested, f.reads, f.writes, fun e he name value => ⟨bound_define he name value, ?_⟩,
    fun _ => adds, distinctNames_after hsingle steps, f.names_after⟩
  exact names_define he

/-- An outer binding to `nil`: from inside it can be rebound, and it can be shadowed, which is not
seen outside. -/
theorem rebound_or_shadowed :
    let f := single.after [.define 0 "a" .nil, .new (some 0)]
    let a : Token := ⟨.identifier, "a", .nil, 1⟩
    let rebound := f.perform (.assign 1 a (.bool true))
    let shadowed := f.perform (.define 1 "a" (.bool true))
    f.Nearest 1 "a" 0 ∧ rebound.read 0 a = .ok (.bool true) ∧
    1 < f.size ∧ shadowed.read 1 a = .ok (.bool true) ∧ shadowed.read 0 a = .ok .nil := by
  intro f a rebound shadowed
  obtain ⟨-, -, hwrites, hdefines, -⟩ := read_over_write [.define 0 "a" .nil, .new (some 0)]
  have hroot : f.chain 0 = [0] := by
    rw [chain_eq]
    rfl
  have hinside : f.chain 1 = [1, 0] := by
    rw [chain_eq]
    exact congrArg (1 :: ·) hroot
  have hbinds : f.Binds 0 "a" := List.mem_singleton.mpr rfl
  have hfree : ¬f.Binds 1 "a" := List.not_mem_nil
  have hnearest : f.Nearest 1 "a" 0 := ⟨⟨[1], [], hinside, by simpa using hfree⟩, hbinds⟩
  have hreached : f.Nearest 0 "a" 0 := ⟨⟨[], [], hroot, by simp⟩, hbinds⟩
  have hsize : 1 < f.size := Nat.lt_succ_self 1
  have hhidden : ¬f.Reaches 0 "a" 1 := by
    rintro ⟨inner, outer, hsplit, -⟩
    have hmem : 1 ∈ f.chain 0 := hsplit ▸ List.mem_append_right inner List.mem_cons_self
    simp [hroot] at hmem
  obtain ⟨f', -, hrebound, hbound, -⟩ := (hwrites 1 a (.bool true)).defined 0 hnearest
  have hshadowed := (hdefines 1 hsize "a" (.bool true)).bound
  refine ⟨hnearest, ?_, hsize, ?_, ?_⟩
  · rw [show rebound = f' from hrebound]
    exact hbound.seen 0 a rfl hreached
  · exact hshadowed.seen 1 a rfl ⟨[], [0], hinside, by simp⟩
  · rw [hshadowed.unseen 0 a (.inr hhidden)]
    exact read_of_get?_eq_some (get?_of_nearest hreached)

end Forest
end LoxLang
