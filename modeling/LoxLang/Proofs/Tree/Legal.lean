import LoxLang.Proofs.Tree.Origin

/-! # Legal trees

A tree is legal if its operators are operators and its names are identifiers; its nodes may be
nested in any way. Every statement that the parser returns is legal, also next to errors and where
the target of an assignment was dropped (`parse_legal`). -/

namespace LoxLang

/-- The operators that stand between two operands. -/
def Kind.isBinaryOperator : Kind → Bool
  | .equalEqual | .bangEqual | .greater | .greaterEqual | .less | .lessEqual => true
  | .minus | .plus | .slash | .star => true
  | _ => false

/-- The operators that stand in front of their operand. -/
def Kind.isUnaryOperator : Kind → Bool
  | .bang | .minus => true
  | _ => false

def Expr.Legal : Expr → Prop
  | .assign name value => name.kind = .identifier ∧ value.Legal
  | .binary left operator right =>
    left.Legal ∧ operator.kind.isBinaryOperator = true ∧ right.Legal
  | .grouping inner => inner.Legal
  | .literal _ => True
  | .unary operator right => operator.kind.isUnaryOperator = true ∧ right.Legal
  | .variable name => name.kind = .identifier

mutual

def Stmt.Legal : Stmt → Prop
  | .block statements => Stmt.AllLegal statements
  | .expression expr => expr.Legal
  | .print expr => expr.Legal
  | .var name initializer => name.kind = .identifier ∧ ∀ e ∈ initializer, e.Legal

def Stmt.AllLegal : List Stmt → Prop
  | [] => True
  | s :: rest => s.Legal ∧ Stmt.AllLegal rest

end

theorem Stmt.allLegal_of_forall {ss : List Stmt} (h : ∀ s ∈ ss, s.Legal) : AllLegal ss := by
  induction ss with
  | nil => trivial
  | cons s ss ih => exact ⟨h s (.head _), ih fun s hs => h s (.tail _ hs)⟩

/-! ## What is read -/

theorem Level.isBinaryOperator_of_hasOperator {level : Level} {kind : Kind}
    (hlevel : level.isBinary = true) (h : level.hasOperator kind = true) :
    kind.isBinaryOperator = true := by
  unfold hasOperator at h
  split at h <;> first | rfl | contradiction

theorem Level.isUnaryOperator_of_hasOperator {kind : Kind}
    (h : Level.unary.hasOperator kind = true) : kind.isUnaryOperator = true := by
  have hmem := Level.mem_unary_iff.mpr h
  simp only [List.mem_cons, List.not_mem_nil, or_false] at hmem
  rcases hmem with rfl | rfl <;> rfl

theorem Token.legal_of_atom? {t : Token} {e : Expr} (h : t.atom? = some e) : e.Legal := by
  unfold Token.atom? at h
  split at h <;> cases h
  case h_6 hkind => exact hkind
  all_goals trivial

theorem Phrase.legal {level : Level} {ts : List Token} {e : Expr} {es : List ParseError}
    (h : Phrase level ts e es) : e.Legal := by
  induction h with
  | assign _ _ _ htarget hvalue => exact ⟨htarget, hvalue⟩
  | invalidTarget _ _ _ _ htarget _ => exact htarget
  | equality _ ih | operand _ _ ih | primary _ ih | grouping _ _ _ ih => exact ih
  | binary hlevel _ hop _ hleft hright =>
    exact ⟨hleft, Level.isBinaryOperator_of_hasOperator hlevel hop, hright⟩
  | unary hop _ ih => exact ⟨Level.isUnaryOperator_of_hasOperator hop, ih⟩
  | atom h => exact Token.legal_of_atom? h

theorem Sentence.legal {ts : List Token} {s : Stmt} {es : List ParseError}
    (h : Sentence ts s es) : s.Legal := by
  cases h with
  | var _ hname _ => exact ⟨hname, nofun⟩
  | varInit _ hname _ he _ =>
    refine ⟨hname, ?_⟩
    rintro _ ⟨⟩
    exact he.legal
  | print _ he _ => exact he.legal
  | expression he _ => exact he.legal

theorem Stmt.ReadFrom.legal {ts : List Token} {s : Stmt} (h : s.ReadFrom ts) : s.Legal := by
  induction h with
  | sentence _ hs => exact hs.legal
  | block _ ih => exact Stmt.allLegal_of_forall ih

theorem parse_legal (ts : List Token) : Stmt.AllLegal (parse ts).statements :=
  Stmt.allLegal_of_forall fun s hs => ((parse_drawn ts).readFrom s hs).legal

end LoxLang
