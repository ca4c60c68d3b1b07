import LoxLang.Token.Basic

/-! # Syntax trees

Expressions and statements as the parser builds them. Names and operators are kept as the tokens
they were written with, so that an error can tell where it happened.

The grammar, with the loosest level first:

* a program is a list of declarations;
* a declaration is `var` with a name, possibly `=` and an expression, and `;`, or a statement;
* a statement is `print` with an expression and `;`, or an expression and `;`, or declarations
  between braces;
* an expression is an assignment: a name, `=` and an assignment, or an equality;
* equality (`!=`, `==`), comparison (`>`, `>=`, `<`, `<=`), term (`-`, `+`) and factor (`/`, `*`)
  are the left-associative levels of binary operators, each made of operands of the next one;
* a unary expression is `!` or `-` with a unary expression, or a primary one;
* a primary expression is `true`, `false`, `nil`, a number, a string, a name, or an expression in
  parentheses. -/

namespace LoxLang

inductive Expr where
  | assign (name : Token) (value : Expr)
  | binary (left : Expr) (operator : Token) (right : Expr)
  | grouping (inner : Expr)
  | literal (value : Value)
  | unary (operator : Token) (right : Expr)
  | variable (name : Token)
  deriving DecidableEq

inductive Stmt where
  | block (statements : List Stmt)
  | expression (expr : Expr)
  | print (expr : Expr)
  | var (name : Token) (initializer : Option Expr)

end LoxLang
