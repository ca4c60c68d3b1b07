import LoxLang.Proofs.Grammar.Program

/-! # Braces match

The tokens of declarations are nested (`DerivesDeclarations.nested`): apart from pairs of braces
around nested tokens there are only tokens that occur in expressions and in statements without
braces. So the braces of declarations match (`Nested.balanced`), and every part of a block that
begins with its opening brace and ends before the closing one leaves a brace open
(`Balanced.openBraces_pos`). -/

namespace LoxLang

/-- The kinds of the tokens that occur in expressions and in statements other than blocks. -/
def Kind.inSentence : Kind → Bool
  | .leftParen | .rightParen | .minus | .plus | .semicolon | .slash | .star => true
  | .bang | .bangEqual | .equal | .equalEqual => true
  | .greater | .greaterEqual | .less | .lessEqual => true
  | .identifier | .string | .number | .kwTrue | .kwFalse | .kwNil | .kwVar | .kwPrint => true
  | _ => false

/-- The tokens are of these kinds. -/
def Flat (ts : List Token) : Prop := ∀ t ∈ ts, t.kind.inSentence = true

/-- Tokens in which the only braces are matching pairs. -/
inductive Nested : List Token → Prop
  | flat {ts : List Token} : Flat ts → Nested ts
  | append {ts us : List Token} : Nested ts → Nested us → Nested (ts ++ us)
  | braces {left right : Token} {ts : List Token} :
    left.kind = .leftBrace → Nested ts → right.kind = .rightBrace →
    Nested (left :: (ts ++ [right]))

/-! ## Declarations are nested -/

namespace Flat

variable {t : Token} {ts us : List Token} {kind : Kind}

theorem cons (ht : t.kind = kind) (hkind : kind.inSentence = true) (h : Flat ts) :
    Flat (t :: ts) :=
  List.forall_mem_cons.mpr ⟨ht ▸ hkind, h⟩

theorem singleton (ht : t.kind = kind) (hkind : kind.inSentence = true) : Flat [t] :=
  cons ht hkind (List.forall_mem_nil _)

theorem append (hts : Flat ts) (hus : Flat us) : Flat (ts ++ us) :=
  List.forall_mem_append.mpr ⟨hts, hus⟩

end Flat

theorem Level.inSentence_of_hasOperator {level : Level} {kind : Kind}
    (h : level.hasOperator kind = true) : kind.inSentence = true := by
  unfold hasOperator at h
  split at h <;> first | rfl | cases h

theorem Phrase.flat {level : Level} {ts : List Token} {e : Expr} {es : List ParseError}
    (h : Phrase level ts e es) : Flat ts := by
  induction h with
  | assign _ hequals _ ih₁ ih₂ | invalidTarget _ _ hequals _ ih₁ ih₂ =>
    exact ih₁.append (.cons hequals rfl ih₂)
  | equality _ ih | operand _ _ ih | primary _ ih => exact ih
  | binary _ _ hop _ ihleft ihright =>
    exact ihleft.append (.cons rfl (Level.inSentence_of_hasOperator hop) ihright)
  | unary hop _ ih => exact .cons rfl (Level.inSentence_of_hasOperator hop) ih
  | atom h =>
    have hatoms : ∀ kind ∈ Kind.atoms, kind.inSentence = true := by decide
    exact .singleton rfl (hatoms _ (Token.kind_mem_atoms h))
  | grouping hleft _ hright ih => exact .cons hleft rfl (ih.append (.singleton hright rfl))

theorem Derives.flat {level : Level} {ts : List Token} {e : Expr} (h : Derives level ts e) :
    Flat ts :=
  h.phrase.flat

mutual

theorem DerivesDeclaration.nested {ts : List Token} {s : Stmt} :
    DerivesDeclaration ts s → Nested ts
  | .var hkeyword hname hclose =>
    .flat (.cons hkeyword rfl (.cons hname rfl (.singleton hclose rfl)))
  | .varInit hkeyword hname hequals he hclose =>
    .flat (.cons hkeyword rfl (.cons hname rfl (.cons hequals rfl
      (he.flat.append (.singleton hclose rfl)))))
  | .statement h => h.nested

theorem DerivesStatement.nested {ts : List Token} {s : Stmt} :
    DerivesStatement ts s → Nested ts
  | .print hkeyword he hclose =>
    .flat (.cons hkeyword rfl (he.flat.append (.singleton hclose rfl)))
  | .block hleft h hright => .braces hleft h.nested hright
  | .expression he hclose => .flat (he.flat.append (.singleton hclose rfl))

theorem DerivesDeclarations.nested {ts : List Token} {ss : List Stmt} :
    DerivesDeclarations ts ss → Nested ts
  | .nil => .flat (List.forall_mem_nil _)
  | .cons h hs => h.nested.append hs.nested

end

theorem Nested.ne_eof {ts : List Token} (h : Nested ts) : ∀ t ∈ ts, t.kind ≠ .eof := by
  induction h with
  | flat h =>
    intro t ht heof
    have hflat := h t ht
    rw [heof] at hflat
    cases hflat
  | append _ _ ih₁ ih₂ => exact List.forall_mem_append.mpr ⟨ih₁, ih₂⟩
  | braces hleft _ hright ih =>
    rw [List.forall_mem_cons, List.forall_mem_append, List.forall_mem_singleton]
    exact ⟨by rw [hleft]; decide, ih, by rw [hright]; decide⟩

/-! ## Open braces -/

/-- How many more braces the tokens open than they close. -/
def openBraces (ts : List Token) : Int :=
  (ts.map Token.kind).count .leftBrace - (ts.map Token.kind).count .rightBrace

@[simp]
theorem openBraces_nil : openBraces [] = 0 := rfl

@[simp]
theorem openBraces_append (ts us : List Token) :
    openBraces (ts ++ us) = openBraces ts + openBraces us := by
  simp only [openBraces, List.map_append, List.count_append]
  omega

theorem openBraces_cons (t : Token) (ts : List Token) :
    openBraces (t :: ts) = openBraces [t] + openBraces ts :=
  openBraces_append [t] ts

theorem openBraces_of_leftBrace {t : Token} (h : t.kind = .leftBrace) : openBraces [t] = 1 := by
  rw [openBraces, List.map_singleton, h]
  rfl

theorem openBraces_of_rightBrace {t : Token} (h : t.kind = .rightBrace) :
    openBraces [t] = -1 := by
  rw [openBraces, List.map_singleton, h]
  rfl

theorem openBraces_of_flat {ts : List Token} (h : Flat ts) :
    openBraces ts = 0 := by
  have hcount (kind : Kind) (hkind : kind.inSentence = false) :
      (ts.map Token.kind).count kind = 0 := by
    refine List.count_eq_zero.mpr fun hmem => ?_
    obtain ⟨t, ht, rfl⟩ := List.mem_map.mp hmem
    rw [h t ht] at hkind
    cases hkind
  rw [openBraces, hcount _ rfl, hcount _ rfl]
  rfl

/-- A closing brace never comes before its opening one, and all braces are closed. -/
structure Balanced (ts : List Token) : Prop where
  nonneg : ∀ front, front <+: ts → 0 ≤ openBraces front
  closed : openBraces ts = 0

/-- A part of two lists, from their start on, ends in the first or in the second. -/
theorem prefix_append_cases {α : Type} {front ts us : List α} (h : front <+: ts ++ us) :
    front <+: ts ∨ ∃ more, more <+: us ∧ front = ts ++ more := by
  rcases List.prefix_or_prefix_of_prefix h (List.prefix_append ts us) with h' | ⟨more, rfl⟩
  · exact .inl h'
  · exact .inr ⟨more, (List.prefix_append_right_inj ts).mp h, rfl⟩

namespace Balanced

variable {ts us : List Token}

theorem of_flat (h : Flat ts) : Balanced ts where
  nonneg := by
    intro front hfront
    have hflat : Flat front := fun t ht => h t (hfront.subset ht)
    exact Int.le_of_eq (openBraces_of_flat hflat).symm
  closed := openBraces_of_flat h

theorem append (hts : Balanced ts) (hus : Balanced us) : Balanced (ts ++ us) where
  nonneg := by
    intro front hfront
    rcases prefix_append_cases hfront with hfront | ⟨more, hmore, rfl⟩
    · exact hts.nonneg front hfront
    · rw [openBraces_append, hts.closed, Int.zero_add]
      exact hus.nonneg more hmore
  closed := by rw [openBraces_append, hts.closed, hus.closed, Int.add_zero]

/-- What begins with the opening brace of a block and ends before the closing one leaves a brace
open. -/
theorem openBraces_pos (hts : Balanced ts) {left : Token} (hleft : left.kind = .leftBrace)
    {front : List Token} (hfront : front <+: ts) : 0 < openBraces (left :: front) := by
  have hnonneg := hts.nonneg front hfront
  rw [openBraces_cons, openBraces_of_leftBrace hleft]
  omega

theorem braces (hts : Balanced ts) {left right : Token} (hleft : left.kind = .leftBrace)
    (hright : right.kind = .rightBrace) : Balanced (left :: (ts ++ [right])) := by
  have hclosed : openBraces (left :: (ts ++ [right])) = 0 := by
    rw [openBraces_cons, openBraces_append, openBraces_of_leftBrace hleft, hts.closed,
      openBraces_of_rightBrace hright]
    rfl
  refine ⟨fun front hfront => ?_, hclosed⟩
  rcases List.prefix_cons_iff.mp hfront with rfl | ⟨front, rfl, hinner⟩
  · exact Int.le_refl 0
  rcases List.prefix_concat_iff.mp hinner with rfl | hinner
  · exact Int.le_of_eq hclosed.symm
  · exact Int.le_of_lt (hts.openBraces_pos hleft hinner)

end Balanced

theorem Nested.balanced {ts : List Token} (h : Nested ts) : Balanced ts := by
  induction h with
  | flat h => exact .of_flat h
  | append _ _ ih₁ ih₂ => exact ih₁.append ih₂
  | braces hleft _ hright ih => exact ih.braces hleft hright

end LoxLang
