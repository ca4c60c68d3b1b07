import LoxLang.Proofs.Lexical.Layout
import LoxLang.Proofs.Lines.Unlined
import LoxLang.Proofs.Number.Display
import LoxLang.Proofs.Number.Literal
import LoxLang.Proofs.Tree.Legal
import LoxLang.Proofs.Tree.Sexp
import Mathlib

/-! # The printed tree determines the tree

The words in a printed tree are names, operators and displays of literals. As long as there are no
strings and no infinite numbers among them, they tell what they stand for: a number begins with a
digit, and no name is a reserved word. So two programs that are printed in the same way differ in
lines only (`printed_trees_determine_programs`). -/

namespace LoxLang

/-! ## Tokens -/

def Value.isInfinite : Value → Bool
  | .number x => x.isInf
  | _ => false

/-- The token is an operator, number or word, as it was written, and its value is not infinite. -/
structure Token.Plain (t : Token) : Prop where
  lexeme : Lexeme t.kind t.lexeme.toList
  literal : t.literal = Segment.literal t.kind t.lexeme.toList
  finite : t.literal.isInfinite = false

theorem Lexeme.kind_unique {kind kind' : Kind} {text : List Char} (h : Lexeme kind text)
    (h' : Lexeme kind' text) : kind = kind' := by
  have hend : ∀ c ∈ ([] : List Char).head?, Text.isBlank c = true := nofun
  obtain ⟨c, cs, hinput, hnext⟩ := ((Spells.lexeme h).prescribes hend).next_eq
  obtain ⟨c', cs', hinput', hnext'⟩ := ((Spells.lexeme h').prescribes hend).next_eq
  obtain ⟨rfl, rfl⟩ := List.cons.inj (hinput.symm.trans hinput')
  have hsegments := congrArg (fun r => r.1.cls) (hnext.symm.trans hnext')
  cases hsegments
  rfl

theorem Lexeme.ne_string {kind : Kind} {text : List Char} (h : Lexeme kind text) :
    kind ≠ .string :=
  h.view.kind_cases.1

namespace Token.Plain

variable {t u : Token}

theorem kind_eq (h : t.Plain) {kind : Kind} {word : String} (hword : t.lexeme = word)
    (hkind : Lexeme kind word.toList) : t.kind = kind :=
  h.lexeme.kind_unique (hword ▸ hkind)

/-- Tokens that are written alike differ in their lines only. -/
theorem unlined_eq (h : t.Plain) (hu : u.Plain) (hlexeme : t.lexeme = u.lexeme) :
    t.unlined = u.unlined := by
  have hkind := h.kind_eq hlexeme hu.lexeme
  have hliteral := h.literal
  rw [hkind, hlexeme, ← hu.literal] at hliteral
  simp only [unlined, reline, Token.mk.injEq]
  exact ⟨hkind, hlexeme, hliteral, trivial⟩

end Token.Plain

/-- The scanned tokens are plain, but for the end mark, strings and infinite numbers. -/
theorem plain_of_mem_scan {source : String} {t : Token} (ht : t ∈ (scan source).tokens)
    (heof : t.kind ≠ .eof) (hstring : t.kind ≠ .string) (hfinite : t.literal.isInfinite = false) :
    t.Plain := by
  obtain ⟨⟨cls, text⟩, hs, line, htoken⟩ := (Segment.mem_tokens ht).resolve_left fun ⟨_, h⟩ =>
    heof (congrArg Token.kind h)
  obtain ⟨input, rest, hprescribes⟩ := (cut_split source.toList).exists_prescribes hs
  cases hprescribes with
  | lexeme h =>
    cases htoken
    refine ⟨?_, ?_, hfinite⟩
    · rwa [String.toList_ofList]
    · rw [String.toList_ofList]
  | string =>
    cases htoken
    exact absurd rfl hstring
  | lineComment | blockComment | openComment | openString | blank | newline | unexpected =>
    cases htoken

/-! ## Words -/

theorem IsNumber.mem_cases {text : List Char} (h : IsNumber text) :
    ∀ c ∈ text, c.isDigit = true ∨ c = '.' := by
  cases h with
  | whole _ hall => exact fun c hc => .inl (hall c hc)
  | decimal _ hall _ hfall =>
    rw [List.forall_mem_append, List.forall_mem_cons]
    exact ⟨fun c hc => .inl (hall c hc), .inr rfl, fun c hc => .inl (hfall c hc)⟩

/-- A mark that is a token of its own is in no other lexeme, except for the point. -/
theorem Lexeme.kind_eq_of_mem {kind mark : Kind} {text : List Char} {c : Char}
    (h : Lexeme kind text) (hc : Segment.single? c = some mark) (hpoint : c ≠ '.')
    (hmem : c ∈ text) : kind = mark := by
  obtain ⟨hext, hslash, hdigit, hword⟩ := Segment.of_single? hc
  have hview := h.view
  cases hview with
  | single hc' =>
    cases List.mem_singleton.mp hmem
    exact Option.some.inj (hc'.symm.trans hc)
  | short hc' =>
    cases List.mem_singleton.mp hmem
    cases hext.symm.trans hc'
  | long hc' =>
    rcases List.mem_cons.mp hmem with rfl | hmem
    · cases hext.symm.trans hc'
    · cases List.mem_singleton.mp hmem
      cases hext
  | slash => exact absurd (List.mem_singleton.mp hmem) hslash
  | number _ hnumber =>
    rcases hnumber.mem_cases c hmem with hc' | hc'
    · cases hdigit.symm.trans hc'
    · exact absurd hc' hpoint
  | word hstart hparts =>
    rcases List.mem_cons.mp hmem with rfl | hmem
    · cases hword.symm.trans hstart
    · have hpart := hparts c hmem
      simp [Segment.isWordPart, hword, hdigit] at hpart

theorem Lexeme.isWord {kind : Kind} {w : String} (h : Lexeme kind w.toList)
    (hkind : kind ∉ [.leftParen, .rightParen]) : Sexp.IsWord w where
  ne_nil := h.view.ne_nil
  plain := by
    intro c hmem hc
    simp only [Sexp.separators, List.mem_cons, List.not_mem_nil, or_false] at hc
    rcases hc with rfl | rfl | rfl
    · exact h.not_mem_of_isBlank (by decide) hmem
    · rw [h.kind_eq_of_mem rfl (by decide) hmem] at hkind
      exact hkind (by decide)
    · rw [h.kind_eq_of_mem rfl (by decide) hmem] at hkind
      exact hkind (by decide)

theorem Lexeme.of_word {w : String} (hne : w.toList ≠ [])
    (hstart : w.toList.head?.all Segment.isWordStart = true)
    (hpart : w.toList.all Segment.isWordPart = true) : Lexeme (Kind.ofWord w) w.toList := by
  obtain ⟨c, cs, hword⟩ := List.exists_cons_of_ne_nil hne
  rw [hword] at hstart hpart
  have hview := LexemeView.word hstart (List.forall_mem_cons.mp (List.all_eq_true.mp hpart)).2
  rw [← hword, String.ofList_toList] at hview
  exact hview.lexeme

theorem Lexeme.of_keyword {word : String} {kind : Kind} (h : (word, kind) ∈ keywordTable) :
    Lexeme kind word.toList := by
  have hall : ∀ entry ∈ keywordTable, entry.1.toList ≠ [] ∧
      entry.1.toList.head?.all Segment.isWordStart = true ∧
      entry.1.toList.all Segment.isWordPart = true := by decide
  obtain ⟨hne, hstart, hpart⟩ := hall _ h
  exact Kind.ofWord_of_mem h ▸ Lexeme.of_word hne hstart hpart

/-- A lexeme that begins with a digit is a number. -/
theorem Lexeme.eq_number_of_isDigit {kind : Kind} {c : Char} {cs : List Char}
    (h : Lexeme kind (c :: cs)) (hc : c.isDigit = true) : kind = .number := by
  have hview := h.view
  cases hview with
  | single hsingle => cases (Segment.of_single? hsingle).2.2.1.symm.trans hc
  | short hext | long hext => cases (Segment.of_extensible? hext).2.2.1.symm.trans hc
  | slash => cases hc
  | number => rfl
  | word hword => cases (Segment.isWordStart_of_isDigit hc).symm.trans hword

/-! ## Literals -/

/-- The values of literals that are neither strings nor infinite. -/
inductive Value.Plain : Value → Prop
  | nil : Plain .nil
  | bool (b : Bool) : Plain (.bool b)
  | number {x : Number} : Unsigned x.toModel.unpack → x.isInf = false → Plain (.number x)

/-- The display of a number that is not negative can be read, so it is no other word. -/
theorem Number.display_spec {x : Number} (hx : Unsigned x.toModel.unpack)
    (hfinite : x.isInf = false) :
    Sexp.IsWord x.display ∧ ∀ kind, Lexeme kind x.display.toList → kind = .number := by
  obtain ⟨v, ⟨d, hd, -⟩, -⟩ := writes_display hx hfinite
  obtain ⟨c, rest, hcs, hc⟩ := hd.exists_head
  have hmarks : ∀ c ∈ Sexp.separators, c.isDigit = false ∧ c ∉ numberMarks := by
    simp [Sexp.separators, numberMarks]
  refine ⟨⟨hcs ▸ List.cons_ne_nil c rest, fun c hmem hsep => ?_⟩, fun kind hkind => ?_⟩
  · obtain ⟨hdigit, hmark⟩ := hmarks c hsep
    rcases hd.mem_cases c hmem with hc | hc
    · cases hdigit.symm.trans hc
    · exact hmark hc
  · rw [hcs] at hkind
    exact hkind.eq_number_of_isDigit hc

namespace Value

/-- The reserved word that the value is displayed as. -/
def keyword? : Value → Option Kind
  | nil => some .kwNil
  | bool true => some .kwTrue
  | bool false => some .kwFalse
  | number _ | string _ => none

theorem mem_keywordTable {v : Value} {kind : Kind} (h : v.keyword? = some kind) :
    (v.display, kind) ∈ keywordTable ∧ kind ∉ [.leftParen, .rightParen, .identifier, .number] := by
  unfold keyword? at h
  split at h <;> cases h <;> decide

theorem eq_of_keyword? {v v' : Value} {kind : Kind} (h : v.keyword? = some kind)
    (h' : v'.keyword? = some kind) : v = v' := by
  unfold keyword? at h h'
  split at h <;> cases h <;> split at h' <;> cases h' <;> rfl

namespace Plain

variable {v v' : Value}

theorem cases_keyword? (h : v.Plain) : (∃ kind, v.keyword? = some kind) ∨
    ∃ x, v = .number x ∧ Unsigned x.toModel.unpack ∧ x.isInf = false := by
  cases h with
  | nil => exact .inl ⟨_, rfl⟩
  | bool b => cases b <;> exact .inl ⟨_, rfl⟩
  | number hx hfinite => exact .inr ⟨_, rfl, hx, hfinite⟩

theorem isWord (h : v.Plain) : Sexp.IsWord v.display := by
  obtain ⟨kind, hkind⟩ | ⟨x, rfl, hx, hfinite⟩ := h.cases_keyword?
  · obtain ⟨hmem, hne⟩ := mem_keywordTable hkind
    exact (Lexeme.of_keyword hmem).isWord fun h => hne (List.mem_append_left [_, _] h)
  · exact (Number.display_spec hx hfinite).1

theorem display_ne_name (h : v.Plain) {name : Token} (hname : name.Plain)
    (hkind : name.kind = .identifier) : v.display ≠ name.lexeme := by
  intro heq
  have hlexeme := hname.lexeme
  rw [hkind, ← heq] at hlexeme
  obtain ⟨kind, hkind⟩ | ⟨x, rfl, hx, hfinite⟩ := h.cases_keyword?
  · obtain ⟨hmem, hne⟩ := mem_keywordTable hkind
    rw [(Lexeme.of_keyword hmem).kind_unique hlexeme] at hne
    exact hne (by decide)
  · cases (Number.display_spec hx hfinite).2 _ hlexeme

theorem keyword?_display_ne {kind : Kind} (h : v.keyword? = some kind) {x : Number}
    (hx : Unsigned x.toModel.unpack) (hfinite : x.isInf = false) : v.display ≠ x.display := by
  intro heq
  obtain ⟨hmem, hne⟩ := mem_keywordTable h
  have hlexeme := Lexeme.of_keyword hmem
  rw [heq] at hlexeme
  rw [(Number.display_spec hx hfinite).2 kind hlexeme] at hne
  exact hne (by decide)

theorem display_inj (h : v.Plain) (h' : v'.Plain) (heq : v.display = v'.display) : v = v' := by
  obtain ⟨kind, hkind⟩ | ⟨x, rfl, hx, hfinite⟩ := h.cases_keyword?
  · obtain ⟨kind', hkind'⟩ | ⟨x', rfl, hx', hfinite'⟩ := h'.cases_keyword?
    · have hlexeme := Lexeme.of_keyword (mem_keywordTable hkind).1
      rw [heq] at hlexeme
      obtain rfl := hlexeme.kind_unique (Lexeme.of_keyword (mem_keywordTable hkind').1)
      exact eq_of_keyword? hkind hkind'
    · exact absurd heq (keyword?_display_ne hkind hx' hfinite')
  · obtain ⟨kind', hkind'⟩ | ⟨x', rfl, hx', hfinite'⟩ := h'.cases_keyword?
    · exact absurd heq.symm (keyword?_display_ne hkind' hx hfinite)
    · exact congrArg Value.number (Number.display_inj hx hx' hfinite hfinite' heq)

end Plain
end Value

/-! ## Expressions -/

/-- The token is the name of a variable. -/
structure Token.IsName (t : Token) : Prop where
  plain : t.Plain
  kind : t.kind = .identifier

theorem Token.IsName.isWord {t : Token} (h : t.IsName) : Sexp.IsWord t.lexeme :=
  h.plain.lexeme.isWord (by rw [h.kind]; decide)

/-- The names, operators and literals in the expression are plain. -/
inductive Expr.Plain : Expr → Prop
  | assign {name : Token} {value : Expr} : name.IsName → value.Plain → Plain (.assign name value)
  | binary {left right : Expr} {operator : Token} : left.Plain → operator.Plain →
    operator.kind.isBinaryOperator = true → right.Plain → Plain (.binary left operator right)
  | grouping {inner : Expr} : inner.Plain → Plain (.grouping inner)
  | literal {value : Value} : value.Plain → Plain (.literal value)
  | unary {operator : Token} {right : Expr} : operator.Plain →
    operator.kind.isUnaryOperator = true → right.Plain → Plain (.unary operator right)
  | «variable» {name : Token} : name.IsName → Plain (.variable name)

theorem Kind.not_mem_of_isBinaryOperator {kind : Kind} (h : kind.isBinaryOperator = true) :
    kind ∉ [.leftParen, .rightParen, .equal] := by
  revert h
  cases kind <;> decide

theorem Kind.not_mem_of_isUnaryOperator {kind : Kind} (h : kind.isUnaryOperator = true) :
    kind ∉ [.leftParen, .rightParen, .identifier] := by
  revert h
  cases kind <;> decide

/-- The heads of lists that are no operators are words. -/
theorem isWord_of_mem_heads :
    ∀ head ∈ ["=", "group", "block", ";", "print", "var"], Sexp.IsWord head := by
  have hall : ∀ head ∈ ["=", "group", "block", ";", "print", "var"], head.toList ≠ [] ∧
      head.toList.all (fun c => !Sexp.separators.contains c) = true := by decide
  intro head hhead
  obtain ⟨hne, hplain⟩ := hall head hhead
  exact ⟨hne, by simpa using hplain⟩

namespace Expr.Plain

variable {e e' : Expr}

theorem wellFormed (h : e.Plain) : e.sexp.WellFormed := by
  induction h with
  | assign hname _ ih => exact ⟨isWord_of_mem_heads _ (by decide), hname.isWord, ih, trivial⟩
  | binary _ hop hkind _ ihleft ihright =>
    have hword := hop.lexeme.isWord fun h =>
      Kind.not_mem_of_isBinaryOperator hkind (List.mem_append_left [_] h)
    exact ⟨hword, ihleft, ihright, trivial⟩
  | grouping _ ih => exact ⟨isWord_of_mem_heads _ (by decide), ih, trivial⟩
  | literal hvalue => exact hvalue.isWord
  | unary hop hkind _ ih =>
    have hword := hop.lexeme.isWord fun h =>
      Kind.not_mem_of_isUnaryOperator hkind (List.mem_append_left [_] h)
    exact ⟨hword, ih, trivial⟩
  | «variable» hname => exact hname.isWord

/-- A binary operator is not written as an assignment is. -/
theorem binary_ne_assign {operator : Token} (hop : operator.Plain)
    (hkind : operator.kind.isBinaryOperator = true) : operator.lexeme ≠ "=" := by
  intro heq
  have hequal := hop.kind_eq heq (.operator (by decide) : Lexeme .equal ['='])
  exact Kind.not_mem_of_isBinaryOperator hkind (by rw [hequal]; decide)

/-- A unary operator is not written as parentheses are. -/
theorem unary_ne_grouping {operator : Token} (hop : operator.Plain)
    (hkind : operator.kind.isUnaryOperator = true) : operator.lexeme ≠ "group" := by
  intro heq
  have hlexeme := @Lexeme.of_word "group" (by decide) (by decide) (by decide)
  have hidentifier := hop.kind_eq heq hlexeme
  exact Kind.not_mem_of_isUnaryOperator hkind (by rw [hidentifier]; decide)

/-- Expressions that are printed alike differ in lines only. -/
theorem reline_eq (h : e.Plain) (h' : e'.Plain) (heq : e.sexp = e'.sexp) :
    e.reline (fun _ => 1) = e'.reline (fun _ => 1) := by
  induction h generalizing e' with
  | assign hname _ ih =>
    cases h' with
    | assign hname' hvalue' =>
      simp only [sexp, Sexp.list.injEq, List.cons.injEq, Sexp.word.injEq, true_and, and_true] at heq
      obtain ⟨hlexeme, hvalue⟩ := heq
      exact congrArg₂ Expr.assign (hname.plain.unlined_eq hname'.plain hlexeme) (ih hvalue' hvalue)
    | binary _ hop hkind =>
      exact absurd (Sexp.list.inj heq).1.symm (binary_ne_assign hop hkind)
    | grouping | unary | literal | «variable» => cases congrArg Sexp.arity? heq
  | binary hleft hop hkind hright ihleft ihright =>
    cases h' with
    | assign => exact absurd (Sexp.list.inj heq).1 (binary_ne_assign hop hkind)
    | binary hleft' hop' hkind' hright' =>
      simp only [sexp, Sexp.list.injEq, List.cons.injEq, and_true] at heq
      obtain ⟨hlexeme, hleft, hright⟩ := heq
      have hoperator := hop.unlined_eq hop' hlexeme
      simp only [reline, binary.injEq]
      exact ⟨ihleft hleft' hleft, hoperator, ihright hright' hright⟩
    | grouping | unary | literal | «variable» => cases congrArg Sexp.arity? heq
  | grouping _ ih =>
    cases h' with
    | grouping hinner' =>
      simp only [sexp, Sexp.list.injEq, List.cons.injEq, true_and, and_true] at heq
      exact congrArg Expr.grouping (ih hinner' heq)
    | unary hop hkind => exact absurd (Sexp.list.inj heq).1.symm (unary_ne_grouping hop hkind)
    | assign | binary | literal | «variable» => cases congrArg Sexp.arity? heq
  | literal hvalue =>
    cases h' with
    | literal hvalue' =>
      exact congrArg Expr.literal (hvalue.display_inj hvalue' (Sexp.word.inj heq))
    | «variable» hname =>
      exact absurd (Sexp.word.inj heq) (hvalue.display_ne_name hname.plain hname.kind)
    | assign | binary | grouping | unary => cases congrArg Sexp.arity? heq
  | unary hop hkind _ ih =>
    cases h' with
    | grouping => exact absurd (Sexp.list.inj heq).1 (unary_ne_grouping hop hkind)
    | unary hop' hkind' hright' =>
      simp only [sexp, Sexp.list.injEq, List.cons.injEq, and_true] at heq
      obtain ⟨hlexeme, hright⟩ := heq
      exact congrArg₂ Expr.unary (hop.unlined_eq hop' hlexeme) (ih hright' hright)
    | assign | binary | literal | «variable» => cases congrArg Sexp.arity? heq
  | «variable» hname =>
    cases h' with
    | literal hvalue =>
      exact absurd (Sexp.word.inj heq).symm (hvalue.display_ne_name hname.plain hname.kind)
    | «variable» hname' =>
      exact congrArg Expr.variable (hname.plain.unlined_eq hname'.plain (Sexp.word.inj heq))
    | assign | binary | grouping | unary => cases congrArg Sexp.arity? heq

end Expr.Plain

/-! ## Statements -/

inductive Stmt.Plain : Stmt → Prop
  | block {ss : List Stmt} : (∀ s ∈ ss, Plain s) → Plain (.block ss)
  | expression {e : Expr} : e.Plain → Plain (.expression e)
  | print {e : Expr} : e.Plain → Plain (.print e)
  | var {name : Token} : name.IsName → Plain (.var name none)
  | varInit {name : Token} {e : Expr} : name.IsName → e.Plain → Plain (.var name (some e))

namespace Stmt.Plain

theorem allWellFormed {ss : List Stmt} (h : ∀ s ∈ ss, s.sexp.WellFormed) :
    Sexp.AllWellFormed (sexps ss) := by
  induction ss with
  | nil => trivial
  | cons s ss ih => exact ⟨h s (.head _), ih fun s hs => h s (.tail _ hs)⟩

theorem wellFormed {s : Stmt} (h : s.Plain) : s.sexp.WellFormed := by
  induction h with
  | block _ ih => exact ⟨isWord_of_mem_heads _ (by decide), allWellFormed ih⟩
  | expression he | print he =>
    exact ⟨isWord_of_mem_heads _ (by decide), he.wellFormed, trivial⟩
  | var hname => exact ⟨isWord_of_mem_heads _ (by decide), hname.isWord, trivial⟩
  | varInit hname he =>
    exact ⟨isWord_of_mem_heads _ (by decide), hname.isWord, he.wellFormed, trivial⟩

theorem relineAll_eq {ss ss' : List Stmt}
    (h : ∀ s ∈ ss, ∀ {s' : Stmt}, s'.Plain → s.sexp = s'.sexp →
      s.reline (fun _ => 1) = s'.reline (fun _ => 1))
    (h' : ∀ s ∈ ss', s.Plain) (heq : sexps ss = sexps ss') :
    relineAll (fun _ => 1) ss = relineAll (fun _ => 1) ss' := by
  induction ss generalizing ss' with
  | nil =>
    cases ss' with
    | nil => rfl
    | cons => cases heq
  | cons s ss ih =>
    cases ss' with
    | nil => cases heq
    | cons s' ss' =>
      obtain ⟨hhead, htail⟩ := List.cons.inj heq
      exact congrArg₂ List.cons (h s (.head _) (h' s' (.head _)) hhead)
        (ih (fun s hs => h s (.tail _ hs)) (fun s hs => h' s (.tail _ hs)) htail)

/-- Statements that are printed alike differ in lines only. -/
theorem reline_eq {s s' : Stmt} (h : s.Plain) (h' : s'.Plain) (heq : s.sexp = s'.sexp) :
    s.reline (fun _ => 1) = s'.reline (fun _ => 1) := by
  induction h generalizing s' with
  | block _ ih =>
    cases h' with
    | block h' => exact congrArg Stmt.block (relineAll_eq ih h' (Sexp.list.inj heq).2)
    | expression | print | var | varInit => exact absurd (Sexp.list.inj heq).1 (by decide)
  | expression he =>
    cases h' with
    | expression he' =>
      simp only [sexp, Sexp.list.injEq, List.cons.injEq, true_and, and_true] at heq
      exact congrArg Stmt.expression (he.reline_eq he' heq)
    | block | print | var | varInit => exact absurd (Sexp.list.inj heq).1 (by decide)
  | print he =>
    cases h' with
    | print he' =>
      simp only [sexp, Sexp.list.injEq, List.cons.injEq, true_and, and_true] at heq
      exact congrArg Stmt.print (he.reline_eq he' heq)
    | block | expression | var | varInit => exact absurd (Sexp.list.inj heq).1 (by decide)
  | var hname =>
    cases h' with
    | var hname' =>
      simp only [sexp, Sexp.list.injEq, List.cons.injEq, Sexp.word.injEq, true_and, and_true] at heq
      exact congrArg (Stmt.var · none) (hname.plain.unlined_eq hname'.plain heq)
    | varInit => cases congrArg Sexp.arity? heq
    | block | expression | print => exact absurd (Sexp.list.inj heq).1 (by decide)
  | varInit hname he =>
    cases h' with
    | var => cases congrArg Sexp.arity? heq
    | varInit hname' he' =>
      simp only [sexp, Sexp.list.injEq, List.cons.injEq, Sexp.word.injEq, true_and, and_true] at heq
      obtain ⟨hlexeme, hinit⟩ := heq
      exact congrArg₂ Stmt.var (hname.plain.unlined_eq hname'.plain hlexeme)
        (congrArg some (he.reline_eq he' hinit))
    | block | expression | print => exact absurd (Sexp.list.inj heq).1 (by decide)

end Stmt.Plain

/-! ## Programs -/

theorem Token.plain_of_atom? {t : Token} {e : Expr} (h : t.atom? = some e) (ht : t.Plain) :
    e.Plain := by
  unfold Token.atom? at h
  split at h <;> cases h
  · exact .literal (.bool false)
  · exact .literal (.bool true)
  · exact .literal .nil
  · next hkind =>
    have hliteral := ht.literal
    have hfinite := ht.finite
    rw [hkind] at hliteral
    rw [hliteral] at hfinite ⊢
    exact .literal (.number (Number.unsigned_ofDigits _ _) hfinite)
  · next hkind => exact absurd hkind ht.lexeme.ne_string
  · next hkind => exact .variable ⟨ht, hkind⟩

theorem Phrase.plain {level : Level} {ts : List Token} {e : Expr} {es : List ParseError}
    (h : Phrase level ts e es) (hts : ∀ t ∈ ts, t.Plain) : e.Plain := by
  induction h with
  | assign _ _ _ ih₁ ih₂ =>
    rw [List.forall_mem_append, List.forall_mem_cons] at hts
    cases ih₁ hts.1 with
    | «variable» hname => exact .assign hname (ih₂ hts.2.2)
  | invalidTarget _ _ _ _ ih => exact ih (List.forall_mem_append.mp hts).1
  | equality _ ih | operand _ _ ih | primary _ ih => exact ih hts
  | binary hlevel _ hop _ ih₁ ih₂ =>
    rw [List.forall_mem_append, List.forall_mem_cons] at hts
    exact .binary (ih₁ hts.1) hts.2.1 (Level.isBinaryOperator_of_hasOperator hlevel hop)
      (ih₂ hts.2.2)
  | unary hop _ ih =>
    rw [List.forall_mem_cons] at hts
    exact .unary hts.1 (Level.isUnaryOperator_of_hasOperator hop) (ih hts.2)
  | atom h => exact Token.plain_of_atom? h (hts _ List.mem_cons_self)
  | grouping _ _ _ ih =>
    rw [List.forall_mem_cons, List.forall_mem_append] at hts
    exact .grouping (ih hts.2.1)

theorem Sentence.plain {ts : List Token} {s : Stmt} {es : List ParseError} (h : Sentence ts s es)
    (hts : ∀ t ∈ ts, t.Plain) : s.Plain := by
  cases h with
  | var _ hname _ => exact .var ⟨hts _ (by simp), hname⟩
  | varInit _ hname _ he _ =>
    exact .varInit ⟨hts _ (by simp), hname⟩ (he.plain fun t ht => hts t (by simp [ht]))
  | print _ he _ => exact .print (he.plain fun t ht => hts t (by simp [ht]))
  | expression he _ => exact .expression (he.plain fun t ht => hts t (by simp [ht]))

theorem Stmt.ReadFrom.plain {ts : List Token} {s : Stmt} (h : s.ReadFrom ts)
    (hts : ∀ t ∈ ts, t.Plain) : s.Plain := by
  induction h with
  | sentence hus hs => exact hs.plain fun t ht => hts t (hus.mem ht)
  | block _ ih => exact .block ih

theorem programOf_plain {source : String}
    (h : ∀ t ∈ (scan source).tokens, t.kind ≠ .string ∧ t.literal.isInfinite = false) :
    ∀ s ∈ programOf source, s.Plain := by
  intro s hs
  refine ((parse_drawn (scan source).tokens).readFrom s hs).plain fun t ht => ?_
  have hmem := (List.takeWhile_sublist _).mem ht
  obtain ⟨hstring, hfinite⟩ := h t hmem
  exact plain_of_mem_scan hmem (by simpa using List.mem_takeWhile_imp ht) hstring hfinite

/-- The printed trees determine the program. Of two sources without strings and without numbers that
overflow to infinity, if the statements that they are parsed as are printed as the same list of
texts, the statements differ in lines only. -/
theorem printed_trees_determine_programs {a b : String}
    (ha : ∀ t ∈ (scan a).tokens, t.kind ≠ .string ∧ t.literal.isInfinite = false)
    (hb : ∀ t ∈ (scan b).tokens, t.kind ≠ .string ∧ t.literal.isInfinite = false)
    (h : (Stmt.toNodes (programOf a)).map Node.render =
      (Stmt.toNodes (programOf b)).map Node.render) :
    Stmt.unlinedAll (programOf a) = Stmt.unlinedAll (programOf b) := by
  have hplain := programOf_plain ha
  have hplain' := programOf_plain hb
  rw [Stmt.map_render_toNodes, Stmt.map_render_toNodes] at h
  have htexts := (List.map_inj_right fun _ _ heq => Except.ok.inj heq).mp h
  have hsexps := Sexp.map_text_inj (Stmt.Plain.allWellFormed fun s hs => (hplain s hs).wellFormed)
    (Stmt.Plain.allWellFormed fun s hs => (hplain' s hs).wellFormed) htexts
  exact Stmt.Plain.relineAll_eq (fun s hs _ => (hplain s hs).reline_eq) hplain' hsexps

/-- A difference of a number and a name, in two layouts and with the number written in two ways. -/
theorem differences_print_alike :
    let a := "print 1.5 - group;"
    let b := "print\n1.50-group;"
    (∀ t ∈ (scan a).tokens, t.kind ≠ .string ∧ t.literal.isInfinite = false) ∧
    (∀ t ∈ (scan b).tokens, t.kind ≠ .string ∧ t.literal.isInfinite = false) ∧
    (Stmt.toNodes (programOf a)).map Node.render = (Stmt.toNodes (programOf b)).map Node.render ∧
    Stmt.unlinedAll (programOf a) = Stmt.unlinedAll (programOf b) := by
  intro a b
  have ha : ∀ t ∈ (scan a).tokens, t.kind ≠ .string ∧ t.literal.isInfinite = false := by
    decide +kernel
  have hb : ∀ t ∈ (scan b).tokens, t.kind ≠ .string ∧ t.literal.isInfinite = false := by
    decide +kernel
  have hprogram (line : Int) (lexeme : String) (x : Number) :
      (parse [⟨.kwPrint, "print", .nil, 1⟩, ⟨.number, lexeme, .number x, line⟩,
        ⟨.minus, "-", .nil, line⟩, ⟨.identifier, "group", .nil, line⟩,
        ⟨.semicolon, ";", .nil, line⟩, .endAt line]).statements =
      [.print (.binary (.literal (.number x)) ⟨.minus, "-", .nil, line⟩
        (.variable ⟨.identifier, "group", .nil, line⟩))] := by
    cbv
  have htokens : (scan a).tokens = [⟨.kwPrint, "print", .nil, 1⟩,
      ⟨.number, "1.5", .number 1.5, 1⟩, ⟨.minus, "-", .nil, 1⟩, ⟨.identifier, "group", .nil, 1⟩,
      ⟨.semicolon, ";", .nil, 1⟩, .endAt 1] := by decide +kernel
  have htokens' : (scan b).tokens = [⟨.kwPrint, "print", .nil, 1⟩,
      ⟨.number, "1.50", .number 1.5, 2⟩, ⟨.minus, "-", .nil, 2⟩, ⟨.identifier, "group", .nil, 2⟩,
      ⟨.semicolon, ";", .nil, 2⟩, .endAt 2] := by decide +kernel
  have hprinted : (Stmt.toNodes (programOf a)).map Node.render =
      (Stmt.toNodes (programOf b)).map Node.render := by
    rw [programOf, programOf, htokens, htokens', hprogram, hprogram]
    rfl
  exact ⟨ha, hb, hprinted, printed_trees_determine_programs ha hb hprinted⟩

end LoxLang
