import LoxLang.Parse.Level
import LoxLang.Tree.Basic

/-! # The grammar

The grammar of programs as relations between token lists and trees, rule by rule and without
reference to how programs are read. `Derives level` is the expression grammar at a level of
precedence; `DerivesDeclaration`, `DerivesStatement` and `DerivesDeclarations` are the grammar of
statements, and `DerivesProgram` that of whole programs with their end mark.

The repetition of a level of binary operators is written by its left-recursive rules: an operand
is a phrase of the level, and a phrase of the level may be followed by an operator and another
operand. The tree of a phrase is thereby folded to the left. -/

namespace LoxLang

/-- The levels of binary operators, each with the level of its operands and its operators. -/
inductive BinaryRule : Level → Level → List Kind → Prop
  | equality : BinaryRule .equality .comparison [.bangEqual, .equalEqual]
  | comparison : BinaryRule .comparison .term [.greater, .greaterEqual, .less, .lessEqual]
  | term : BinaryRule .term .factor [.minus, .plus]
  | factor : BinaryRule .factor .unary [.slash, .star]

/-- The tokens are an expression of the level, and this is its tree. -/
inductive Derives : Level → List Token → Expr → Prop
  | assign {name equals : Token} {ts : List Token} {value : Expr} :
    name.kind = .identifier → equals.kind = .equal → Derives .assignment ts value →
    Derives .assignment (name :: equals :: ts) (.assign name value)
  | equality {ts : List Token} {e : Expr} :
    Derives .equality ts e → Derives .assignment ts e
  | operand {level next : Level} {ops : List Kind} {ts : List Token} {e : Expr} :
    BinaryRule level next ops → Derives next ts e → Derives level ts e
  | binary {level next : Level} {ops : List Kind} {ts us : List Token} {op : Token}
      {left right : Expr} :
    BinaryRule level next ops → Derives level ts left → op.kind ∈ ops → Derives next us right →
    Derives level (ts ++ op :: us) (.binary left op right)
  | unary {op : Token} {ts : List Token} {right : Expr} :
    op.kind ∈ [Kind.bang, Kind.minus] → Derives .unary ts right →
    Derives .unary (op :: ts) (.unary op right)
  | primary {ts : List Token} {e : Expr} : Derives .primary ts e → Derives .unary ts e
  | kwTrue {t : Token} : t.kind = .kwTrue → Derives .primary [t] (.literal (.bool true))
  | kwFalse {t : Token} : t.kind = .kwFalse → Derives .primary [t] (.literal (.bool false))
  | kwNil {t : Token} : t.kind = .kwNil → Derives .primary [t] (.literal .nil)
  | number {t : Token} : t.kind = .number → Derives .primary [t] (.literal t.literal)
  | string {t : Token} : t.kind = .string → Derives .primary [t] (.literal t.literal)
  | identifier {t : Token} : t.kind = .identifier → Derives .primary [t] (.variable t)
  | grouping {left right : Token} {ts : List Token} {inner : Expr} :
    left.kind = .leftParen → Derives .assignment ts inner → right.kind = .rightParen →
    Derives .primary (left :: (ts ++ [right])) (.grouping inner)

mutual

/-- The tokens are a declaration, and this is its tree. -/
inductive DerivesDeclaration : List Token → Stmt → Prop
  | var {keyword name close : Token} :
    keyword.kind = .kwVar → name.kind = .identifier → close.kind = .semicolon →
    DerivesDeclaration [keyword, name, close] (.var name none)
  | varInit {keyword name equals close : Token} {ts : List Token} {e : Expr} :
    keyword.kind = .kwVar → name.kind = .identifier → equals.kind = .equal →
    Derives .assignment ts e → close.kind = .semicolon →
    DerivesDeclaration (keyword :: name :: equals :: (ts ++ [close])) (.var name (some e))
  | statement {ts : List Token} {s : Stmt} : DerivesStatement ts s → DerivesDeclaration ts s

/-- The tokens are a statement, and this is its tree. -/
inductive DerivesStatement : List Token → Stmt → Prop
  | print {keyword close : Token} {ts : List Token} {e : Expr} :
    keyword.kind = .kwPrint → Derives .assignment ts e → close.kind = .semicolon →
    DerivesStatement (keyword :: (ts ++ [close])) (.print e)
  | block {left right : Token} {ts : List Token} {ss : List Stmt} :
    left.kind = .leftBrace → DerivesDeclarations ts ss → right.kind = .rightBrace →
    DerivesStatement (left :: (ts ++ [right])) (.block ss)
  | expression {close : Token} {ts : List Token} {e : Expr} :
    Derives .assignment ts e → close.kind = .semicolon →
    DerivesStatement (ts ++ [close]) (.expression e)

/-- The tokens are declarations one after the other, and these are their trees. -/
inductive DerivesDeclarations : List Token → List Stmt → Prop
  | nil : DerivesDeclarations [] []
  | cons {ts us : List Token} {s : Stmt} {ss : List Stmt} :
    DerivesDeclaration ts s → DerivesDeclarations us ss →
    DerivesDeclarations (ts ++ us) (s :: ss)

end

/-- The tokens are a program with its end mark, and these are the trees of its declarations. -/
inductive DerivesProgram : List Token → List Stmt → Prop
  | intro {ts : List Token} {last : Token} {ss : List Stmt} :
    DerivesDeclarations ts ss → last.kind = .eof → DerivesProgram (ts ++ [last]) ss

end LoxLang
