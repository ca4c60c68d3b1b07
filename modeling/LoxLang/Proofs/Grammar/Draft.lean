import LoxLang.Proofs.Grammar.Braces
import LoxLang.Proofs.Recovery.Clause

/-! # Wrong targets of assignments

The grammar, extended by one rule: any equality may stand in front of an equals sign. A *draft* is a
derivation in the extended grammar. Its tree is the tree of the derivation in which an assignment to
anything but a name is replaced by its left side, and its reports are one for each such assignment,
after those of both of its sides.

Drafts are parsed without panic: nothing is given up or skipped, and the parser returns the trees
and the reports of the drafts (`drafts_parse_in_place`). -/

namespace LoxLang

/-! ## The extended grammar -/

/-- A derivation of an expression of the level. -/
inductive Draft : Level → Type
  | assign (name equals : Token) (value : Draft .assignment)
    (name_kind : name.kind = .identifier) (equals_kind : equals.kind = .equal) :
    Draft .assignment
  /-- The rule that is added: the left side may be anything. -/
  | assignTo (target : Draft .equality) (equals : Token) (value : Draft .assignment)
    (equals_kind : equals.kind = .equal) : Draft .assignment
  | equality (inner : Draft .equality) : Draft .assignment
  | operand {level next : Level} {ops : List Kind} (rule : BinaryRule level next ops)
    (inner : Draft next) : Draft level
  | binary {level next : Level} {ops : List Kind} (rule : BinaryRule level next ops)
    (left : Draft level) (operator : Token) (right : Draft next)
    (operator_kind : operator.kind ∈ ops) : Draft level
  | unary (operator : Token) (right : Draft .unary)
    (operator_kind : operator.kind ∈ [Kind.bang, Kind.minus]) : Draft .unary
  | primary (inner : Draft .primary) : Draft .unary
  /-- A primary expression that is one token, with its tree. -/
  | atom (t : Token) (tree : Expr) (derives : Derives .primary [t] tree) : Draft .primary
  | grouping (left : Token) (inner : Draft .assignment) (right : Token)
    (left_kind : left.kind = .leftParen) (right_kind : right.kind = .rightParen) : Draft .primary

/-- A derivation of a declaration. -/
inductive DraftDeclaration where
  | var (keyword name close : Token) (keyword_kind : keyword.kind = .kwVar)
    (name_kind : name.kind = .identifier) (close_kind : close.kind = .semicolon)
  | varInit (keyword name equals : Token) (value : Draft .assignment) (close : Token)
    (keyword_kind : keyword.kind = .kwVar) (name_kind : name.kind = .identifier)
    (equals_kind : equals.kind = .equal) (close_kind : close.kind = .semicolon)
  | print (keyword : Token) (value : Draft .assignment) (close : Token)
    (keyword_kind : keyword.kind = .kwPrint) (close_kind : close.kind = .semicolon)
  | block (left : Token) (body : List DraftDeclaration) (right : Token)
    (left_kind : left.kind = .leftBrace) (right_kind : right.kind = .rightBrace)
  | expression (value : Draft .assignment) (close : Token) (close_kind : close.kind = .semicolon)

/-- The name that the tokens are, if they are an identifier on its own. -/
def loneName? : List Token → Option Token
  | [t] => if t.kind = .identifier then some t else none
  | _ => none

namespace Draft

/-- The tokens that are derived. -/
def tokens {level : Level} : Draft level → List Token
  | .assign name equals value _ _ => name :: equals :: value.tokens
  | .assignTo target equals value _ => target.tokens ++ equals :: value.tokens
  | .equality inner => inner.tokens
  | .operand _ inner => inner.tokens
  | .binary _ left operator right _ => left.tokens ++ operator :: right.tokens
  | .unary operator right _ => operator :: right.tokens
  | .primary inner => inner.tokens
  | .atom t _ _ => [t]
  | .grouping left inner right _ _ => left :: (inner.tokens ++ [right])

/-- The tree of the derivation, where an assignment to anything but a name is its left side. -/
def tree {level : Level} : Draft level → Expr
  | .assign name _ value _ _ => .assign name value.tree
  | .assignTo target _ value _ =>
    match loneName? target.tokens with
    | some name => .assign name value.tree
    | none => target.tree
  | .equality inner => inner.tree
  | .operand _ inner => inner.tree
  | .binary _ left operator right _ => .binary left.tree operator right.tree
  | .unary operator right _ => .unary operator right.tree
  | .primary inner => inner.tree
  | .atom _ tree _ => tree
  | .grouping _ inner _ _ _ => .grouping inner.tree

/-- One report for each assignment to anything but a name, at its equals sign: those on the left
side first, then those on the right side, then the assignment's own. -/
def reports {level : Level} : Draft level → List ParseError
  | .assign _ _ value _ _ => value.reports
  | .assignTo target equals value _ =>
    target.reports ++ value.reports ++
      match loneName? target.tokens with
      | some _ => []
      | none => [⟨.invalidTarget, equals⟩]
  | .equality inner => inner.reports
  | .operand _ inner => inner.reports
  | .binary _ left _ right _ => left.reports ++ right.reports
  | .unary _ right _ => right.reports
  | .primary inner => inner.reports
  | .atom _ _ _ => []
  | .grouping _ inner _ _ _ => inner.reports

end Draft

namespace DraftDeclaration

mutual

def tokens : DraftDeclaration → List Token
  | .var keyword name close _ _ _ => [keyword, name, close]
  | .varInit keyword name equals value close _ _ _ _ =>
    keyword :: name :: equals :: (value.tokens ++ [close])
  | .print keyword value close _ _ => keyword :: (value.tokens ++ [close])
  | .block left body right _ _ => left :: (tokensAll body ++ [right])
  | .expression value close _ => value.tokens ++ [close]

def tokensAll : List DraftDeclaration → List Token
  | [] => []
  | d :: rest => d.tokens ++ tokensAll rest

end

mutual

def tree : DraftDeclaration → Stmt
  | .var _ name _ _ _ _ => .var name none
  | .varInit _ name _ value _ _ _ _ _ => .var name (some value.tree)
  | .print _ value _ _ _ => .print value.tree
  | .block _ body _ _ _ => .block (treeAll body)
  | .expression value _ _ => .expression value.tree

/-- One statement for each declaration. -/
def treeAll : List DraftDeclaration → List Stmt
  | [] => []
  | d :: rest => d.tree :: treeAll rest

end

mutual

def reports : DraftDeclaration → List ParseError
  | .var _ _ _ _ _ _ => []
  | .varInit _ _ _ value _ _ _ _ _ => value.reports
  | .print _ value _ _ _ => value.reports
  | .block _ body _ _ _ => reportsAll body
  | .expression value _ _ => value.reports

def reportsAll : List DraftDeclaration → List ParseError
  | [] => []
  | d :: rest => d.reports ++ reportsAll rest

end

end DraftDeclaration

/-! ## Expressions -/

theorem loneName?_eq_some_iff {ts : List Token} {name : Token} :
    loneName? ts = some name ↔ ts = [name] ∧ name.kind = .identifier := by
  constructor
  · intro h
    unfold loneName? at h
    split at h
    · split at h
      · next hkind =>
        cases h
        exact ⟨rfl, hkind⟩
      · cases h
    · cases h
  · rintro ⟨rfl, hkind⟩
    rw [loneName?, if_pos hkind]

theorem Stops.nil {level : Level} : Stops level [] := by
  intro t ht
  cases ht

theorem Phrase.of_identifier {name : Token} (h : name.kind = .identifier) :
    Phrase .equality [name] (.variable name) [] :=
  equality_of_primary (.atom (by rw [Token.atom?, h]))

/-- A name on its own has only one tree, since phrases are read. -/
theorem Phrase.eq_variable {name : Token} {e : Expr} {es : List ParseError}
    (h : Phrase .equality [name] e es) (hname : name.kind = .identifier) :
    e = .variable name ∧ es = [] := by
  have hread : (readLevel name .equality [name]).reading = .done e [] es :=
    h.reading_eq_done name .nil
  have hvariable : (readLevel name .equality [name]).reading = .done (.variable name) [] [] :=
    (of_identifier hname).reading_eq_done name .nil
  rw [hvariable] at hread
  cases hread
  exact ⟨rfl, rfl⟩

/-- A draft is a phrase with its tree and its reports. -/
theorem Draft.phrase {level : Level} (d : Draft level) :
    Phrase level d.tokens d.tree d.reports := by
  induction d with
  | assign name equals value hname hequals ih =>
    exact (Phrase.of_identifier hname).assign hequals ih
  | assignTo target equals value hequals ihtarget ihvalue =>
    rw [tokens, tree, reports]
    cases hlone : loneName? target.tokens with
    | some name =>
      obtain ⟨htokens, hname⟩ := loneName?_eq_some_iff.mp hlone
      rw [htokens] at ihtarget ⊢
      obtain ⟨htree, hreports⟩ := ihtarget.eq_variable hname
      rw [hreports, List.nil_append, List.append_nil]
      exact (Phrase.of_identifier hname).assign hequals ihvalue
    | none =>
      refine ihtarget.invalidTarget (fun name htree => ?_) hequals ihvalue
      rw [htree] at ihtarget
      obtain ⟨htokens, hname, -⟩ := ihtarget.eq_singleton_of_variable
      rw [loneName?_eq_some_iff.mpr ⟨htokens, hname⟩] at hlone
      cases hlone
  | equality inner ih => exact ih.equality
  | operand rule inner ih => exact .operand rule.isBinary (rule.operand_eq ▸ ih)
  | binary rule left operator right hop ihleft ihright =>
    exact ihleft.binary rule.isBinary (rule.mem_iff.mp hop) (rule.operand_eq ▸ ihright)
  | unary operator right hop ih => exact ih.unary (Level.mem_unary_iff.mp hop)
  | primary inner ih => exact ih.primary
  | atom t tree derives => exact derives.phrase
  | grouping left inner right hleft hright ih => exact ih.grouping hleft hright

theorem Draft.onlyTargets {level : Level} (d : Draft level) : OnlyTargets d.reports :=
  d.phrase.onlyTargets

/-! ## Declarations -/

namespace DraftDeclaration

mutual

/-- A draft is read as one declaration, whatever follows it. -/
theorem readAs : (d : DraftDeclaration) → ReadAs d.tokens (some d.tree) d.reports
  | .var _ _ _ hkeyword hname hclose => (Sentence.var hkeyword hname hclose).readAs
  | .varInit _ _ _ value _ hkeyword hname hequals hclose =>
    (Sentence.varInit hkeyword hname hequals value.phrase hclose).readAs
  | .print _ value _ hkeyword hclose => (Sentence.print hkeyword value.phrase hclose).readAs
  | .block _ body _ hleft hright => by
    rw [tokens, tree, reports]
    exact readAs_block hleft (reading_readBlock hright body)
  | .expression value _ hclose => (Sentence.expression value.phrase hclose).readAs

theorem reading_readBlock {right : Token} (hright : right.kind = .rightBrace) :
    (ds : List DraftDeclaration) → ∀ last rest,
      (readBlock last (tokensAll ds ++ right :: rest)).reading =
        .done (treeAll ds) rest (reportsAll ds)
  | [], last, rest => by
    rw [tokensAll, List.nil_append, reading_readBlock_cons, if_pos hright]
    rfl
  | d :: ds, last, rest => by
    rw [tokensAll, List.append_assoc]
    exact readBlock_of_readAs d.readAs (reading_readBlock hright ds last rest)

end

mutual

theorem nested : (d : DraftDeclaration) → Nested d.tokens
  | .var _ _ _ hkeyword hname hclose =>
    .flat (.cons hkeyword rfl (.cons hname rfl (.singleton hclose rfl)))
  | .varInit _ _ _ value _ hkeyword hname hequals hclose =>
    .flat (.cons hkeyword rfl (.cons hname rfl (.cons hequals rfl
      (value.phrase.flat.append (.singleton hclose rfl)))))
  | .print _ value _ hkeyword hclose =>
    .flat (.cons hkeyword rfl (value.phrase.flat.append (.singleton hclose rfl)))
  | .block _ body _ hleft hright => .braces hleft (nestedAll body) hright
  | .expression value _ hclose => .flat (value.phrase.flat.append (.singleton hclose rfl))

theorem nestedAll : (ds : List DraftDeclaration) → Nested (tokensAll ds)
  | [] => .flat (List.forall_mem_nil _)
  | d :: ds => d.nested.append (nestedAll ds)

end

mutual

theorem onlyTargets : (d : DraftDeclaration) → OnlyTargets d.reports
  | .var _ _ _ _ _ _ => .nil
  | .varInit _ _ _ value _ _ _ _ _ => value.onlyTargets
  | .print _ value _ _ _ => value.onlyTargets
  | .block _ body _ _ _ => onlyTargetsAll body
  | .expression value _ _ => value.onlyTargets

theorem onlyTargetsAll : (ds : List DraftDeclaration) → OnlyTargets (reportsAll ds)
  | [] => .nil
  | d :: ds => d.onlyTargets.append (onlyTargetsAll ds)

end

theorem readProgram_eq (ds : List DraftDeclaration) (last : Token) :
    readProgram last (tokensAll ds) = ⟨treeAll ds, reportsAll ds⟩ := by
  induction ds with
  | nil => exact readProgram_nil last
  | cons d ds ih =>
    rw [tokensAll, readProgram_of_readAs d.readAs, ih]
    rfl

end DraftDeclaration

open DraftDeclaration in
/-- Drafts of declarations, followed by nothing or an end mark, are parsed as their trees with their
reports. None of the reports was raised; and every draft, also one inside a block, is read as one
declaration with its tree and its reports, and in front of whatever follows it. -/
theorem drafts_parse_in_place (ds : List DraftDeclaration) (tail : List Token)
    (htail : ∀ t ∈ tail.head?, t.kind = .eof) :
    parse (tokensAll ds ++ tail) = ⟨treeAll ds, reportsAll ds⟩ ∧
    (∀ e ∈ reportsAll ds, ¬ e.Raised ∧ e.cause.message = "Invalid assignment target.") ∧
    ∀ d : DraftDeclaration, ReadAs d.tokens (some d.tree) d.reports := by
  refine ⟨?_, fun e he => ?_, readAs⟩
  · obtain ⟨last, hparse⟩ := parse_append_end (nestedAll ds).ne_eof htail
    rw [hparse, readProgram_eq]
  · have hcause := onlyTargetsAll ds e he
    exact ⟨not_not_intro hcause, by rw [hcause]; rfl⟩

/-- A unary expression as an equality. -/
def Draft.ofUnary (d : Draft .unary) : Draft .equality :=
  .operand .equality (.operand .comparison (.operand .term (.operand .factor d)))

/-- An equals sign on the given line. -/
def Token.equalsAt (line : Int) : Token := ⟨.equal, "=", .nil, line⟩

/-- The draft `{ var x = (nil = a) = y = -b = c; }`, with its equals signs on lines 1 to 5. -/
def wrongTargets : DraftDeclaration :=
  let atom (name : String) : Draft .unary :=
    .primary (.atom (.plain .identifier name) (.variable (.plain .identifier name))
      (.identifier rfl))
  let nothing : Draft .unary :=
    .primary (.atom (.plain .kwNil "nil") (.literal .nil) (.kwNil rfl))
  let inner : Draft .assignment :=
    .assignTo nothing.ofUnary (.equalsAt 2) (.equality (atom "a").ofUnary) rfl
  let target : Draft .equality :=
    .ofUnary (.primary (.grouping (.plain .leftParen "(") inner (.plain .rightParen ")") rfl rfl))
  let negation : Draft .unary := .unary (.plain .minus "-") (atom "b") (by decide)
  let value : Draft .assignment :=
    .assign (.plain .identifier "y") (.equalsAt 4)
      (.assignTo negation.ofUnary (.equalsAt 5) (.equality (atom "c").ofUnary) rfl) rfl rfl
  .block (.plain .leftBrace "\x7b")
    [.varInit (.plain .kwVar "var") (.plain .identifier "x") (.equalsAt 1)
      (.assignTo target (.equalsAt 3) value rfl) ⟨.semicolon, ";", .nil, 5⟩ rfl rfl rfl rfl]
    (.plain .rightBrace "\x7d") rfl rfl

/-- Of `(nil = a) = y = -b = c` the parenthesis remains, and the equals signs on lines 2, 5 and 3
are reported in this order. -/
theorem wrongTargets_parse_in_place :
    (∀ t ∈ [Token.endAt 1].head?, t.kind = .eof) ∧
    (DraftDeclaration.tokensAll [wrongTargets]).map Token.lexeme =
      ["\x7b", "var", "x", "=", "(", "nil", "=", "a", ")", "=", "y", "=", "-", "b", "=", "c", ";",
       "\x7d"] ∧
    parse (DraftDeclaration.tokensAll [wrongTargets] ++ [Token.endAt 1]) =
      ⟨[.block [.var (.plain .identifier "x") (some (.grouping (.literal .nil)))]],
       [⟨.invalidTarget, .equalsAt 2⟩, ⟨.invalidTarget, .equalsAt 5⟩,
        ⟨.invalidTarget, .equalsAt 3⟩]⟩ := by
  have htail : ∀ t ∈ [Token.endAt 1].head?, t.kind = .eof := by decide
  obtain ⟨hparse, -⟩ := drafts_parse_in_place [wrongTargets] [Token.endAt 1] htail
  exact ⟨htail, rfl, hparse⟩

end LoxLang
