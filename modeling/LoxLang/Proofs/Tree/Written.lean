import LoxLang.Engine
import LoxLang.Proofs.Grammar.Braces
import LoxLang.Proofs.Recovery.Clause
import LoxLang.Proofs.Tree.Legal

/-! # Trees written down

Every legal tree has a written form: its tokens in order, with parentheses around each operand that
is itself built by an operator or an assignment (`Stmt.writeAll`). The nodes may be nested in any
way; the parentheses keep an operand from being taken apart by the operators around it.

The parser reads the written form back, with a grouping in the tree for each pair of parentheses
that was added (`Stmt.derives_writeAll`), and groupings change nothing about what a tree does
(`Expr.eval_ungroup`, `Stmt.execAll_ungroupAll`). Both together give
`written_program_reads_back`. -/

namespace LoxLang

/-! ## The written form -/

/-- A token without a literal. -/
def Token.sign (line : Int) (kind : Kind) (lexeme : String) : Token := ⟨kind, lexeme, .nil, line⟩

/-- The token that a value is written as. -/
def Value.token (line : Int) : Value → Token
  | .nil => .sign line .kwNil "nil"
  | .bool true => .sign line .kwTrue "true"
  | .bool false => .sign line .kwFalse "false"
  | .number x => ⟨.number, x.text, .number x, line⟩
  | .string s => ⟨.string, "\"" ++ s ++ "\"", .string s, line⟩

namespace Expr

/-- The expression needs parentheses where it is an operand. -/
def isCompound : Expr → Bool
  | .assign .. | .binary .. | .unary .. => true
  | .grouping _ | .literal _ | .variable _ => false

/-- The tokens `ts` of an expression where it is an operand. -/
def enclose (line : Int) (e : Expr) (ts : List Token) : List Token :=
  if e.isCompound then .sign line .leftParen "(" :: (ts ++ [.sign line .rightParen ")"]) else ts

/-- The tokens of an expression, where those that the tree does not hold are on the given line. -/
def write (line : Int) : Expr → List Token
  | .assign name value => name :: .sign line .equal "=" :: value.enclose line (value.write line)
  | .binary left operator right =>
    left.enclose line (left.write line) ++ operator :: right.enclose line (right.write line)
  | .grouping inner =>
    .sign line .leftParen "(" :: (inner.write line ++ [.sign line .rightParen ")"])
  | .literal value => [value.token line]
  | .unary operator right => operator :: right.enclose line (right.write line)
  | .variable name => [name]

/-- The tree of an operand, where `read` is the tree of what stands inside its parentheses. -/
def group (e read : Expr) : Expr := if e.isCompound then .grouping read else read

/-- The tree with a grouping around each operand that is written in parentheses. -/
def grouped : Expr → Expr
  | .assign name value => .assign name (value.group value.grouped)
  | .binary left operator right =>
    .binary (left.group left.grouped) operator (right.group right.grouped)
  | .grouping inner => .grouping inner.grouped
  | .literal value => .literal value
  | .unary operator right => .unary operator (right.group right.grouped)
  | .variable name => .variable name

/-- The tree without groupings. -/
def ungroup : Expr → Expr
  | .assign name value => .assign name value.ungroup
  | .binary left operator right => .binary left.ungroup operator right.ungroup
  | .grouping inner => inner.ungroup
  | .literal value => .literal value
  | .unary operator right => .unary operator right.ungroup
  | .variable name => .variable name

end Expr

namespace Stmt

mutual

/-- The tokens of a statement. -/
def write (line : Int) : Stmt → List Token
  | .block statements =>
    .sign line .leftBrace "\x7b" :: (writeAll line statements ++ [.sign line .rightBrace "\x7d"])
  | .expression expr => expr.write line ++ [.sign line .semicolon ";"]
  | .print expr =>
    .sign line .kwPrint "print" :: (expr.write line ++ [.sign line .semicolon ";"])
  | .var name none => [.sign line .kwVar "var", name, .sign line .semicolon ";"]
  | .var name (some initializer) =>
    .sign line .kwVar "var" :: name :: .sign line .equal "=" ::
      (initializer.write line ++ [.sign line .semicolon ";"])

def writeAll (line : Int) : List Stmt → List Token
  | [] => []
  | s :: rest => s.write line ++ writeAll line rest

end

mutual

def grouped : Stmt → Stmt
  | .block statements => .block (groupedAll statements)
  | .expression expr => .expression expr.grouped
  | .print expr => .print expr.grouped
  | .var name initializer => .var name (initializer.map Expr.grouped)

def groupedAll : List Stmt → List Stmt
  | [] => []
  | s :: rest => s.grouped :: groupedAll rest

end

mutual

def ungroup : Stmt → Stmt
  | .block statements => .block (ungroupAll statements)
  | .expression expr => .expression expr.ungroup
  | .print expr => .print expr.ungroup
  | .var name initializer => .var name (initializer.map Expr.ungroup)

def ungroupAll : List Stmt → List Stmt
  | [] => []
  | s :: rest => s.ungroup :: ungroupAll rest

end

end Stmt

/-! ## Groupings come and go -/

theorem Expr.ungroup_group (e read : Expr) : (e.group read).ungroup = read.ungroup := by
  unfold group
  split <;> rfl

theorem Expr.ungroup_grouped (e : Expr) : e.grouped.ungroup = e.ungroup := by
  induction e with
  | assign name value ih => simp only [grouped, ungroup, ungroup_group, ih]
  | binary left operator right ihleft ihright =>
    simp only [grouped, ungroup, ungroup_group, ihleft, ihright]
  | grouping inner ih => exact ih
  | literal value => rfl
  | unary operator right ih => simp only [grouped, ungroup, ungroup_group, ih]
  | «variable» name => rfl

mutual

theorem Stmt.ungroup_grouped : (s : Stmt) → s.grouped.ungroup = s.ungroup
  | .block statements => congrArg Stmt.block (ungroupAll_groupedAll statements)
  | .expression expr => congrArg Stmt.expression expr.ungroup_grouped
  | .print expr => congrArg Stmt.print expr.ungroup_grouped
  | .var _ none => rfl
  | .var name (some initializer) =>
    congrArg (fun e => Stmt.var name (some e)) initializer.ungroup_grouped

theorem Stmt.ungroupAll_groupedAll : (ss : List Stmt) →
    ungroupAll (groupedAll ss) = ungroupAll ss
  | [] => rfl
  | s :: rest => by
    rw [groupedAll, ungroupAll, ungroupAll, s.ungroup_grouped, ungroupAll_groupedAll rest]

end

/-! ## What is written is derived -/

theorem Value.atom?_token (line : Int) (v : Value) : (v.token line).atom? = some (.literal v) := by
  cases v with
  | bool b => cases b <;> rfl
  | nil | number x | string s => rfl

namespace Derives

variable {level : Level} {ts : List Token} {e : Expr}

/-- A primary expression is one of every level. -/
theorem of_primary (h : Derives .primary ts e) (level : Level) : Derives level ts e := by
  have hfactor : Derives .factor ts e := .operand .factor (.primary h)
  have hterm : Derives .term ts e := .operand .term hfactor
  have hcomparison : Derives .comparison ts e := .operand .comparison hterm
  have hequality : Derives .equality ts e := .operand .equality hcomparison
  cases level with
  | assignment => exact .equality hequality
  | equality => exact hequality
  | comparison => exact hcomparison
  | term => exact hterm
  | factor => exact hfactor
  | unary => exact .primary h
  | primary => exact h

/-- An expression of any level is an assignment. -/
theorem assignment (h : Derives level ts e) : Derives .assignment ts e := by
  have ofComparison (h : Derives .comparison ts e) : Derives .assignment ts e :=
    .equality (.operand .equality h)
  have ofFactor (h : Derives .factor ts e) : Derives .assignment ts e :=
    ofComparison (.operand .comparison (.operand .term h))
  cases level with
  | assignment => exact h
  | equality => exact .equality h
  | comparison => exact ofComparison h
  | term => exact ofComparison (.operand .comparison h)
  | factor => exact ofFactor h
  | unary => exact ofFactor (.operand .factor h)
  | primary => exact h.of_primary .assignment

end Derives

/-- Every binary operator belongs to a level. -/
theorem BinaryRule.of_isBinaryOperator {kind : Kind} (h : kind.isBinaryOperator = true) :
    ∃ level next ops, BinaryRule level next ops ∧ kind ∈ ops := by
  have hops : kind ∈ [Kind.bangEqual, .equalEqual] ∨
      kind ∈ [Kind.greater, .greaterEqual, .less, .lessEqual] ∨
      kind ∈ [Kind.minus, .plus] ∨ kind ∈ [Kind.slash, .star] := by
    revert h
    cases kind <;> decide
  rcases hops with hops | hops | hops | hops
  · exact ⟨_, _, _, .equality, hops⟩
  · exact ⟨_, _, _, .comparison, hops⟩
  · exact ⟨_, _, _, .term, hops⟩
  · exact ⟨_, _, _, .factor, hops⟩

theorem Level.mem_unary_of_isUnaryOperator {kind : Kind} (h : kind.isUnaryOperator = true) :
    kind ∈ [Kind.bang, Kind.minus] := by
  revert h
  cases kind <;> decide

/-- The tightest level at which an expression is written. -/
def Expr.writtenLevel (e : Expr) : Level := if e.isCompound then .assignment else .primary

/-- Where it is an operand, the expression is a primary one: it is an atom, or it is enclosed in
parentheses, inside of which anything may stand. -/
theorem Derives.enclose {e read : Expr} {ts : List Token} (h : Derives e.writtenLevel ts read)
    (line : Int) : Derives .primary (e.enclose line ts) (e.group read) := by
  unfold Expr.writtenLevel at h
  unfold Expr.enclose Expr.group
  split
  · next hcompound =>
    rw [if_pos hcompound] at h
    exact .grouping rfl h rfl
  · next hatom =>
    rw [if_neg hatom] at h
    exact h

/-- One case per constructor: all operands are primary expressions, and these fit the level of
every operator. -/
theorem Expr.derives_write (line : Int) {e : Expr} (h : e.Legal) :
    Derives e.writtenLevel (e.write line) e.grouped := by
  induction e with
  | assign name value ih =>
    exact .assign h.1 rfl (((ih h.2).enclose line).of_primary .assignment)
  | binary left operator right ihleft ihright =>
    obtain ⟨hleft, hoperator, hright⟩ := h
    obtain ⟨level, next, ops, hrule, hop⟩ := BinaryRule.of_isBinaryOperator hoperator
    have hl := ((ihleft hleft).enclose line).of_primary level
    have hr := ((ihright hright).enclose line).of_primary next
    exact (Derives.binary hrule hl hop hr).assignment
  | grouping inner ih => exact .grouping rfl (ih h).assignment rfl
  | literal value => exact .of_atom? (value.atom?_token line)
  | unary operator right ih =>
    have hr := ((ih h.2).enclose line).of_primary .unary
    exact (Derives.unary (Level.mem_unary_of_isUnaryOperator h.1) hr).assignment
  | «variable» name => exact .identifier h

theorem Expr.derives_write_assignment (line : Int) {e : Expr} (h : e.Legal) :
    Derives .assignment (e.write line) e.grouped :=
  (derives_write line h).assignment

mutual

theorem Stmt.derives_write (line : Int) : (s : Stmt) → s.Legal →
    DerivesDeclaration (s.write line) s.grouped
  | .block statements, h => .statement (.block rfl (derives_writeAll line statements h) rfl)
  | .expression _, h => .statement (.expression (Expr.derives_write_assignment line h) rfl)
  | .print _, h => .statement (.print rfl (Expr.derives_write_assignment line h) rfl)
  | .var _ none, h => .var rfl h.1 rfl
  | .var _ (some initializer), h =>
    .varInit rfl h.1 rfl (Expr.derives_write_assignment line (h.2 initializer rfl)) rfl

theorem Stmt.derives_writeAll (line : Int) : (ss : List Stmt) → AllLegal ss →
    DerivesDeclarations (writeAll line ss) (groupedAll ss)
  | [], _ => .nil
  | s :: rest, h => .cons (s.derives_write line h.1) (derives_writeAll line rest h.2)

end

/-- Declarations of the grammar are read to their end, where there is nothing or an end mark. -/
theorem DerivesDeclarations.parse_eq {ts : List Token} {ss : List Stmt}
    (h : DerivesDeclarations ts ss) {tail : List Token}
    (htail : ∀ t ∈ tail.head?, t.kind = .eof) : parse (ts ++ tail) = ⟨ss, []⟩ := by
  obtain ⟨last, hparse⟩ := parse_append_end h.nested.ne_eof htail
  have hread := h.readProgram_eq last []
  rw [List.append_nil, readProgram_nil, List.append_nil] at hread
  rw [hparse, hread]

theorem Stmt.parse_writeAll {ss : List Stmt} (h : AllLegal ss) (line : Int)
    {tail : List Token} (htail : ∀ t ∈ tail.head?, t.kind = .eof) :
    parse (writeAll line ss ++ tail) = ⟨groupedAll ss, []⟩ :=
  (derives_writeAll line ss h).parse_eq htail

/-! ## What is executed -/

theorem Expr.eval_ungroup (e : Expr) : e.ungroup.toNode.eval = e.toNode.eval := by
  induction e with
  | assign name value ih => simp only [ungroup, toNode, Node.eval, ih]
  | binary left operator right ihleft ihright =>
    simp only [ungroup, toNode, Node.eval, ihleft, ihright]
  | grouping inner ih => simpa only [ungroup, toNode, Node.eval] using ih
  | literal value => rfl
  | unary operator right ih => simp only [ungroup, toNode, Node.eval, ih]
  | «variable» name => rfl

mutual

theorem Stmt.exec_ungroup : (s : Stmt) → s.ungroup.toNode.exec = s.toNode.exec
  | .block statements => by
    simp only [ungroup, toNode, Node.exec, execAll_ungroupAll statements]
  | .expression expr => by simp only [ungroup, toNode, Node.exec, expr.eval_ungroup]
  | .print expr => by simp only [ungroup, toNode, Node.exec, expr.eval_ungroup]
  | .var name none => rfl
  | .var name (some initializer) => by
    simp only [ungroup, toNode, Option.map_some, Option.elim_some, Node.exec,
      Expr.initialValue_toNode, initializer.eval_ungroup]

theorem Stmt.execAll_ungroupAll : (ss : List Stmt) →
    Node.execAll (toNodes (ungroupAll ss)) = Node.execAll (toNodes ss)
  | [] => rfl
  | s :: rest => by
    simp only [ungroupAll, toNodes, Node.execAll, s.exec_ungroup, execAll_ungroupAll rest]

end

/-- Statements that differ only by groupings do the same. -/
theorem Engine.interpret_of_ungroupAll_eq {ss ss' : List Stmt}
    (h : Stmt.ungroupAll ss = Stmt.ungroupAll ss') (s : Engine) :
    s.interpret (Stmt.toNodes ss) = s.interpret (Stmt.toNodes ss') := by
  have hexec : Node.execAll (Stmt.toNodes ss) = Node.execAll (Stmt.toNodes ss') := by
    rw [← Stmt.execAll_ungroupAll ss, h, Stmt.execAll_ungroupAll ss']
  have hrun : s.scopes.run (Stmt.toNodes ss) = s.scopes.run (Stmt.toNodes ss') := by
    rw [Chain.run, Chain.run, hexec]
  rw [interpret, interpret, hrun]

/-- Legal statements, nested in any way, are read back from their written form, whatever the line
of the tokens that are added and whether or not an end mark follows: the parser finds no error, and
without groupings it returns the statements that were written. Interpreting what it returns has the
same outcome as interpreting the statements, from every state. -/
theorem written_program_reads_back (ss : List Stmt) (h : Stmt.AllLegal ss) (line : Int)
    (tail : List Token) (htail : ∀ t ∈ tail.head?, t.kind = .eof) :
    let parsed := parse (Stmt.writeAll line ss ++ tail)
    parsed.errors = [] ∧
    Stmt.ungroupAll parsed.statements = Stmt.ungroupAll ss ∧
    ∀ s : Engine,
      s.interpret (Stmt.toNodes parsed.statements) = s.interpret (Stmt.toNodes ss) := by
  intro parsed
  have hparsed : parsed = ⟨Stmt.groupedAll ss, []⟩ := Stmt.parse_writeAll h line htail
  have hungroup : Stmt.ungroupAll parsed.statements = Stmt.ungroupAll ss := by
    rw [hparsed]
    exact Stmt.ungroupAll_groupedAll ss
  refine ⟨by rw [hparsed], hungroup, fun s => ?_⟩
  exact Engine.interpret_of_ungroupAll_eq hungroup s

/-- An assignment under a negation, comparisons folded to the right, and a product with an
assignment under its left operand and a sum as its right one; the last statement fails. -/
def misnested : List Stmt :=
  let x : Token := .plain .identifier "x"
  let equal : Token := .plain .equalEqual "=="
  [.var x none,
   .print (.unary (.plain .bang "!")
    (.assign x (.binary (.literal .nil) equal (.binary (.variable x) equal (.literal .nil))))),
   .expression (.binary (.unary (.plain .minus "-") (.assign x (.literal (.string "s"))))
    (.plain .star "*") (.binary (.variable x) (.plain .plus "+") (.variable x)))]

theorem misnested_reads_back :
    Stmt.AllLegal misnested ∧ (∀ t ∈ [Token.endAt 1].head?, t.kind = .eof) ∧
    (Stmt.writeAll 1 misnested).map Token.lexeme =
      ["var", "x", ";",
       "print", "!", "(", "x", "=", "(", "nil", "==", "(", "x", "==", "nil", ")", ")", ")", ";",
       "(", "-", "(", "x", "=", "\"s\"", ")", ")", "*", "(", "x", "+", "x", ")", ";"] ∧
    let parsed := parse (Stmt.writeAll 1 misnested ++ [Token.endAt 1])
    parsed.errors = [] ∧ Stmt.ungroupAll parsed.statements = Stmt.ungroupAll misnested ∧
    (Engine.interpret (.empty false) (Stmt.toNodes parsed.statements)).printed = ["true"] ∧
    (Engine.interpret (.empty false) (Stmt.toNodes parsed.statements)).engine.log.runtimeErrors =
      [⟨.typeMismatch, .plain .minus "-", "Operand must be a number."⟩] := by
  have hlegal : Stmt.AllLegal misnested := by simp [misnested, Stmt.AllLegal, Stmt.Legal,
    Expr.Legal, Token.plain, Kind.isBinaryOperator, Kind.isUnaryOperator]
  have htail : ∀ t ∈ [Token.endAt 1].head?, t.kind = .eof := by decide
  have h := written_program_reads_back misnested hlegal 1 [Token.endAt 1] htail
  refine ⟨hlegal, htail, rfl, h.1, h.2.1, ?_⟩
  rw [h.2.2]
  exact ⟨rfl, rfl⟩

end LoxLang
