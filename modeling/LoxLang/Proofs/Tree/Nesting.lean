import LoxLang.Proofs.Tree.Origin
import LoxLang.Proofs.Tree.Written

/-! # Trees that stand in source

The trees that the parser returns, for whatever tokens, are trees of valid source: written down as
they are, with the parentheses of their groupings and no others, they are read back unchanged
(`parsed_trees_read_back`). An assignment whose target was wrong is no exception, since what remains
of it is its left side, which stands at a tighter level.

The precedence and the associativity of the operators are the shape of such trees: every operand is
at a level that its node allows (`Expr.Nests`). -/

namespace LoxLang

/-! ## Written forms without added parentheses -/

/-- The tokens are the expression as it is: its names and operators by their own tokens, a literal
by a token of its value, and parentheses for groupings only. -/
inductive Expr.WrittenAs : Expr → List Token → Prop
  | assign {name equals : Token} {value : Expr} {ts : List Token} :
    equals.kind = .equal → WrittenAs value ts →
    WrittenAs (.assign name value) (name :: equals :: ts)
  | binary {left right : Expr} {operator : Token} {ts us : List Token} :
    WrittenAs left ts → WrittenAs right us →
    WrittenAs (.binary left operator right) (ts ++ operator :: us)
  | grouping {left right : Token} {inner : Expr} {ts : List Token} :
    left.kind = .leftParen → WrittenAs inner ts → right.kind = .rightParen →
    WrittenAs (.grouping inner) (left :: (ts ++ [right]))
  | literal {t : Token} {value : Value} :
    t.atom? = some (.literal value) → WrittenAs (.literal value) [t]
  | unary {operator : Token} {right : Expr} {ts : List Token} :
    WrittenAs right ts → WrittenAs (.unary operator right) (operator :: ts)
  | variable {name : Token} : WrittenAs (.variable name) [name]

mutual

/-- The tokens are the statement as it is. -/
inductive Stmt.WrittenAs : Stmt → List Token → Prop
  | block {left right : Token} {ss : List Stmt} {ts : List Token} :
    left.kind = .leftBrace → Stmt.AllWrittenAs ss ts → right.kind = .rightBrace →
    Stmt.WrittenAs (.block ss) (left :: (ts ++ [right]))
  | expression {e : Expr} {ts : List Token} {close : Token} :
    e.WrittenAs ts → close.kind = .semicolon → Stmt.WrittenAs (.expression e) (ts ++ [close])
  | print {keyword close : Token} {e : Expr} {ts : List Token} :
    keyword.kind = .kwPrint → e.WrittenAs ts → close.kind = .semicolon →
    Stmt.WrittenAs (.print e) (keyword :: (ts ++ [close]))
  | var {keyword name close : Token} :
    keyword.kind = .kwVar → close.kind = .semicolon →
    Stmt.WrittenAs (.var name none) [keyword, name, close]
  | varInit {keyword name equals close : Token} {e : Expr} {ts : List Token} :
    keyword.kind = .kwVar → equals.kind = .equal → e.WrittenAs ts → close.kind = .semicolon →
    Stmt.WrittenAs (.var name (some e)) (keyword :: name :: equals :: (ts ++ [close]))

/-- The tokens are the statements as they are, one after the other. -/
inductive Stmt.AllWrittenAs : List Stmt → List Token → Prop
  | nil : Stmt.AllWrittenAs [] []
  | cons {s : Stmt} {ss : List Stmt} {ts us : List Token} :
    s.WrittenAs ts → Stmt.AllWrittenAs ss us → Stmt.AllWrittenAs (s :: ss) (ts ++ us)

end

theorem Expr.exists_writtenAs (e : Expr) : ∃ ts, e.WrittenAs ts := by
  induction e with
  | assign name value ih =>
    obtain ⟨ts, hts⟩ := ih
    exact ⟨name :: .sign 1 .equal "=" :: ts, .assign rfl hts⟩
  | binary left operator right ihleft ihright =>
    obtain ⟨ts, hts⟩ := ihleft
    obtain ⟨us, hus⟩ := ihright
    exact ⟨ts ++ operator :: us, .binary hts hus⟩
  | grouping inner ih =>
    obtain ⟨ts, hts⟩ := ih
    exact ⟨.sign 1 .leftParen "(" :: (ts ++ [.sign 1 .rightParen ")"]), .grouping rfl hts rfl⟩
  | literal value => exact ⟨[value.token 1], .literal (value.atom?_token 1)⟩
  | unary operator right ih =>
    obtain ⟨ts, hts⟩ := ih
    exact ⟨operator :: ts, .unary hts⟩
  | «variable» name => exact ⟨[name], .variable⟩

mutual

theorem Stmt.exists_writtenAs : (s : Stmt) → ∃ ts, s.WrittenAs ts
  | .block ss => by
    obtain ⟨ts, hts⟩ := Stmt.exists_allWrittenAs ss
    exact ⟨.sign 1 .leftBrace "\x7b" :: (ts ++ [.sign 1 .rightBrace "\x7d"]), .block rfl hts rfl⟩
  | .expression e => by
    obtain ⟨ts, hts⟩ := e.exists_writtenAs
    exact ⟨ts ++ [.sign 1 .semicolon ";"], .expression hts rfl⟩
  | .print e => by
    obtain ⟨ts, hts⟩ := e.exists_writtenAs
    exact ⟨.sign 1 .kwPrint "print" :: (ts ++ [.sign 1 .semicolon ";"]), .print rfl hts rfl⟩
  | .var name none =>
    ⟨[.sign 1 .kwVar "var", name, .sign 1 .semicolon ";"], .var rfl rfl⟩
  | .var name (some e) => by
    obtain ⟨ts, hts⟩ := e.exists_writtenAs
    exact ⟨.sign 1 .kwVar "var" :: name :: .sign 1 .equal "=" :: (ts ++ [.sign 1 .semicolon ";"]),
      .varInit rfl rfl hts rfl⟩

theorem Stmt.exists_allWrittenAs : (ss : List Stmt) → ∃ ts, AllWrittenAs ss ts
  | [] => ⟨[], .nil⟩
  | s :: ss => by
    obtain ⟨ts, hts⟩ := s.exists_writtenAs
    obtain ⟨us, hus⟩ := Stmt.exists_allWrittenAs ss
    exact ⟨ts ++ us, .cons hts hus⟩

end

/-! ## What is written is read back -/

/-- The tree of a phrase is derived from its written form at the level of the phrase. The phrase may
have errors: the left side that remains of a wrong assignment is an equality. -/
theorem Phrase.derives_writtenAs {level : Level} {ts us : List Token} {e : Expr}
    {es : List ParseError} (h : Phrase level ts e es) (hus : e.WrittenAs us) :
    Derives level us e := by
  induction h generalizing us with
  | assign htarget _ _ _ ih =>
    obtain ⟨-, hname, -⟩ := htarget.eq_singleton_of_variable
    cases hus with
    | assign hequals hvalue => exact .assign hname hequals (ih hvalue)
  | invalidTarget _ _ _ _ ih => exact .equality (ih hus)
  | equality _ ih => exact .equality (ih hus)
  | operand hlevel _ ih =>
    obtain ⟨ops, hrule⟩ := BinaryRule.of_isBinary hlevel
    exact .operand hrule (ih hus)
  | binary hlevel _ hop _ ihleft ihright =>
    obtain ⟨ops, hrule⟩ := BinaryRule.of_isBinary hlevel
    cases hus with
    | binary hleft hright =>
      exact .binary hrule (ihleft hleft) (hrule.mem_iff.mpr hop) (ihright hright)
  | unary hop _ ih =>
    cases hus with
    | unary hright => exact .unary (Level.mem_unary_iff.mpr hop) (ih hright)
  | primary _ ih => exact .primary (ih hus)
  | atom h =>
    rcases Token.atom?_cases h with ⟨value, rfl⟩ | rfl
    · cases hus with
      | literal ht => exact .of_atom? ht
    · cases hus with
      | «variable» => exact .of_atom? h
  | grouping _ _ _ ih =>
    cases hus with
    | grouping hleft hinner hright => exact .grouping hleft (ih hinner) hright

mutual

theorem Stmt.WrittenAs.derives {s : Stmt} {ts us : List Token} (hlegal : s.Legal)
    (hexprs : ∀ e ∈ s.exprs, StandsIn ts e) : s.WrittenAs us → DerivesDeclaration us s
  | .block hleft hss hright => .statement (.block hleft (hss.derives hlegal hexprs) hright)
  | .expression he hclose => by
    obtain ⟨_, _, -, h⟩ := hexprs _ List.mem_cons_self
    exact .statement (.expression (h.derives_writtenAs he) hclose)
  | .print hkeyword he hclose => by
    obtain ⟨_, _, -, h⟩ := hexprs _ List.mem_cons_self
    exact .statement (.print hkeyword (h.derives_writtenAs he) hclose)
  | .var hkeyword hclose => .var hkeyword hlegal.1 hclose
  | .varInit hkeyword hequals he hclose => by
    obtain ⟨_, _, -, h⟩ := hexprs _ List.mem_cons_self
    exact .varInit hkeyword hlegal.1 hequals (h.derives_writtenAs he) hclose

theorem Stmt.AllWrittenAs.derives {ss : List Stmt} {ts us : List Token} (hlegal : AllLegal ss)
    (hexprs : ∀ e ∈ exprsAll ss, StandsIn ts e) :
    AllWrittenAs ss us → DerivesDeclarations us ss
  | .nil => .nil
  | .cons hs hss =>
    .cons (hs.derives hlegal.1 fun e he => hexprs e (List.mem_append_left _ he))
      (hss.derives hlegal.2 fun e he => hexprs e (List.mem_append_right _ he))

end

/-! ## Levels -/

/-- The level of a binary operator. -/
def Kind.binaryLevel : Kind → Level
  | .bangEqual | .equalEqual => .equality
  | .greater | .greaterEqual | .less | .lessEqual => .comparison
  | .minus | .plus => .term
  | .slash | .star => .factor
  | _ => .primary

/-- The tightest level at which an expression stands, which its top node decides. -/
def Expr.level : Expr → Level
  | .assign .. => .assignment
  | .binary _ operator _ => operator.kind.binaryLevel
  | .unary .. => .unary
  | .grouping _ | .literal _ | .variable _ => .primary

def Expr.isAssign : Expr → Bool
  | .assign .. => true
  | _ => false

/-- The operands of the expression's top node are at the levels that it allows, where a rank is
smaller at a tighter level. A binary operator takes a left operand of its level or a tighter one and
a right operand of a tighter one, a unary operator a unary expression or a primary one. Neither
takes an assignment, so that an assignment stands at the top of an expression, as the value of an
assignment or in a grouping. -/
def Expr.Nests : Expr → Prop
  | .binary left operator right =>
    left.level.rank ≤ operator.kind.binaryLevel.rank ∧
    right.level.rank < operator.kind.binaryLevel.rank ∧
    left.isAssign = false ∧ right.isAssign = false
  | .unary _ right =>
    (right.level = .unary ∨ right.level = .primary) ∧ right.isAssign = false
  | .assign .. | .grouping _ | .literal _ | .variable _ => True

theorem Level.binaryLevel_eq {level : Level} {kind : Kind} (hlevel : level.isBinary = true)
    (h : level.hasOperator kind = true) : kind.binaryLevel = level := by
  unfold hasOperator at h
  split at h <;> first | rfl | contradiction

theorem Level.rank_lt_of_isBinary {level : Level} (h : level.isBinary = true) :
    level.rank < Level.assignment.rank := by
  revert h
  cases level <;> decide

/-- Nothing that is tighter than an assignment is one. -/
theorem Expr.isAssign_of_rank_lt {e : Expr} (h : e.level.rank < Level.assignment.rank) :
    e.isAssign = false := by
  cases e with
  | assign => exact absurd h (Nat.lt_irrefl _)
  | binary | grouping | literal | unary | «variable» => rfl

theorem Expr.nests_binary {level : Level} {left right : Expr} {operator : Token}
    (hlevel : level.isBinary = true) (hop : level.hasOperator operator.kind = true)
    (hleft : left.level.rank ≤ level.rank) (hright : right.level.rank < level.rank) :
    Nests (.binary left operator right) := by
  have hassignment := Level.rank_lt_of_isBinary hlevel
  rw [Nests, Level.binaryLevel_eq hlevel hop]
  refine ⟨hleft, hright, isAssign_of_rank_lt ?_, isAssign_of_rank_lt ?_⟩
  · exact Nat.lt_of_le_of_lt hleft hassignment
  · exact Nat.lt_trans hright hassignment

theorem Expr.nests_unary {right : Expr} (operator : Token)
    (h : right.level.rank ≤ Level.unary.rank) : Nests (.unary operator right) := by
  refine ⟨?_, isAssign_of_rank_lt (Nat.lt_of_le_of_lt h (by decide))⟩
  revert h
  cases right.level <;> decide

theorem Phrase.rank_level_le {level : Level} {ts : List Token} {e : Expr} {es : List ParseError}
    (h : Phrase level ts e es) : e.level.rank ≤ level.rank := by
  induction h with
  | assign => exact Nat.le_refl _
  | invalidTarget _ _ _ _ ih | equality _ ih => exact Nat.le_succ_of_le ih
  | operand hlevel _ ih => exact Nat.le_of_lt (Nat.lt_of_le_of_lt ih (Level.rank_operand_lt hlevel))
  | binary hlevel _ hop =>
    exact Nat.le_of_eq (congrArg Level.rank (Level.binaryLevel_eq hlevel hop))
  | unary => exact Nat.le_refl _
  | primary _ ih => exact Nat.le_succ_of_le ih
  | atom h => rcases Token.atom?_cases h with ⟨value, rfl⟩ | rfl <;> exact Nat.le_refl _
  | grouping => exact Nat.le_refl _

/-- Every node in the tree of a phrase has operands at the levels it allows. -/
theorem Phrase.nests {level : Level} {ts : List Token} {e : Expr} {es : List ParseError}
    (h : Phrase level ts e es) : ∀ sub ∈ e.subtrees, sub.Nests := by
  induction h with
  | assign _ _ _ _ ih => exact List.forall_mem_cons.mpr ⟨trivial, ih⟩
  | invalidTarget _ _ _ _ ih | equality _ ih | operand _ _ ih | primary _ ih => exact ih
  | binary hlevel hleft hop hright ihleft ihright =>
    have hlt := Nat.lt_of_le_of_lt hright.rank_level_le (Level.rank_operand_lt hlevel)
    have hnests := Expr.nests_binary hlevel hop hleft.rank_level_le hlt
    exact List.forall_mem_cons.mpr ⟨hnests, List.forall_mem_append.mpr ⟨ihleft, ihright⟩⟩
  | unary _ hright ih =>
    exact List.forall_mem_cons.mpr ⟨Expr.nests_unary _ hright.rank_level_le, ih⟩
  | atom h =>
    rcases Token.atom?_cases h with ⟨value, rfl⟩ | rfl <;>
      exact List.forall_mem_singleton.mpr trivial
  | grouping _ _ _ ih => exact List.forall_mem_cons.mpr ⟨trivial, ih⟩

/-! ## Programs -/

/-- The parser only returns trees that valid source has. Whatever the tokens `ts` and the errors in
them, the statements have a written form without added parentheses; and parsing any such form, with
or without an end mark behind it, finds no error and returns the same statements. Every operand in
them is at a level that its node allows. -/
theorem parsed_trees_read_back (ts : List Token) :
    let ss := (parse ts).statements
    (∃ us, Stmt.AllWrittenAs ss us) ∧
    (∀ us tail, Stmt.AllWrittenAs ss us → (∀ t ∈ tail.head?, t.kind = .eof) →
      parse (us ++ tail) = ⟨ss, []⟩) ∧
    ∀ e ∈ Stmt.exprsAll ss, ∀ sub ∈ e.subtrees, sub.Nests := by
  intro ss
  have hstands := (parse_drawn ts).standsIn
  refine ⟨Stmt.exists_allWrittenAs ss, fun us tail hus htail => ?_, fun e he => ?_⟩
  · exact (hus.derives (parse_legal ts) hstands).parse_eq htail
  · obtain ⟨us, es, -, hphrase⟩ := hstands e he
    exact hphrase.nests

end LoxLang
