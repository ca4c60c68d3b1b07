import LoxLang.Proofs.Grammar.Program
import LoxLang.Proofs.Lines.Basic

/-! # Parsing does not depend on lines

The readers decide by the kinds of tokens, and copy the tokens themselves into trees and errors. So
reading tokens on other lines gives the same readings on other lines, whatever is wrong with the
tokens (`readProgram_reline`, `parse_reline`). -/

namespace LoxLang

variable {line : Token → Int} {α β α' β' : Type}

namespace Reading

/-- The same reading of tokens on other lines, where `onValue` changes the lines of the value. -/
def reline (line : Token → Int) (onValue : α → α') : Reading α → Reading α'
  | done value rest errors =>
    done (onValue value) (rest.map (Token.reline line)) (errors.map (ParseError.reline line))
  | stuck rest errors =>
    stuck (rest.map (Token.reline line)) (errors.map (ParseError.reline line))

theorem reline_after (onValue : α → α') (r : Reading α) (es : List ParseError) :
    (r.after es).reline line onValue =
      (r.reline line onValue).after (es.map (ParseError.reline line)) := by
  cases r <;> simp [after, reline]

theorem bind_reline {onValue : α → α'} {onResult : β → β'} {r : Reading α} {r' : Reading α'}
    {next : α → List Token → Reading β} {next' : α' → List Token → Reading β'}
    (h : r' = r.reline line onValue)
    (hnext : ∀ value rest es, r = .done value rest es →
      next' (onValue value) (rest.map (Token.reline line)) =
        (next value rest).reline line onResult) :
    r'.bind next' = (r.bind next).reline line onResult := by
  subst h
  cases r with
  | done value rest es =>
    rw [bind_done, reline_after, ← hnext value rest es rfl]
    rfl
  | stuck rest es => rfl

end Reading

open Reading (bind_reline)

theorem expect_reline (last : Token) (kind : Kind) (cause : ParseCause) (ts : List Token) :
    (expect (last.reline line) kind cause (ts.map (Token.reline line))).reading =
      (expect last kind cause ts).reading.reline line (Token.reline line) := by
  cases ts with
  | nil => rfl
  | cons t ts =>
    rw [List.map_cons, reading_expect_cons, reading_expect_cons, Token.kind_reline]
    split <;> rfl

/-! ## Expressions -/

theorem Token.atom?_reline (t : Token) :
    (t.reline line).atom? = t.atom?.map (Expr.reline line) := by
  unfold atom?
  rw [kind_reline]
  split <;> rfl

/-- The reader of the level reads tokens on other lines alike, and so does what it reads behind a
left operand. -/
def ReadsRelined (line : Token → Int) (last : Token) (level : Level) (ts : List Token) : Prop :=
  (readLevel (last.reline line) level (ts.map (Token.reline line))).reading =
    (readLevel last level ts).reading.reline line (Expr.reline line) ∧
  ∀ left, (readMore (last.reline line) level (left.reline line)
      (ts.map (Token.reline line))).reading =
    (readMore last level left ts).reading.reline line (Expr.reline line)

variable {last : Token}

theorem readMore_reline {level : Level} {ts : List Token}
    (ih : ∀ level us, us.length < ts.length → ReadsRelined line last level us) (left : Expr) :
    (readMore (last.reline line) level (left.reline line) (ts.map (Token.reline line))).reading =
      (readMore last level left ts).reading.reline line (Expr.reline line) := by
  cases ts with
  | nil =>
    rw [List.map_nil, reading_readMore_nil, reading_readMore_nil]
    rfl
  | cons op ts =>
    rw [List.map_cons, reading_readMore_cons, reading_readMore_cons, Token.kind_reline]
    split
    · refine bind_reline (ih level.operand ts (length_lt_cons op ts)).1 ?_
      intro right rest es hread
      have hlength := Nat.lt_succ_of_lt (Bounded.length_lt_of_done hread)
      exact (ih level rest hlength).2 (.binary left op right)
    · rfl

theorem readsRelined (level : Level) (ts : List Token) : ReadsRelined line last level ts := by
  induction level, ts using Level.readers_induction with
  | primary ts ih =>
    refine ⟨?_, readMore_reline ih⟩
    cases ts with
    | nil =>
      rw [List.map_nil, reading_readLevel_primary_nil, reading_readLevel_primary_nil]
      rfl
    | cons t ts =>
      rw [List.map_cons, reading_readLevel_primary_cons, reading_readLevel_primary_cons,
        Token.atom?_reline, Token.kind_reline]
      cases t.atom? with
      | some e => rfl
      | none =>
        dsimp only [Option.map_none]
        split
        · refine bind_reline (ih .assignment ts (length_lt_cons t ts)).1 fun inner rest es _ => ?_
          exact bind_reline (expect_reline last _ _ rest) fun _ _ _ _ => rfl
        · rfl
  | unary ts ih hprimary =>
    refine ⟨?_, readMore_reline ih⟩
    cases ts with
    | nil =>
      rw [List.map_nil, reading_readLevel_unary_nil, reading_readLevel_unary_nil]
      exact hprimary.1
    | cons op ts =>
      rw [List.map_cons, reading_readLevel_unary_cons, reading_readLevel_unary_cons,
        Token.kind_reline]
      split
      · exact bind_reline (ih .unary ts (length_lt_cons op ts)).1 fun _ _ _ _ => rfl
      · exact hprimary.1
  | binary level ts hlevel ih hoperand =>
    refine ⟨?_, readMore_reline ih⟩
    rw [reading_readLevel_binary _ hlevel, reading_readLevel_binary _ hlevel]
    refine bind_reline hoperand.1 fun left rest es hread => ?_
    exact (ih level rest (Bounded.length_lt_of_done hread)).2 left
  | assignment ts ih hequality =>
    refine ⟨?_, readMore_reline ih⟩
    rw [reading_readLevel_assignment, reading_readLevel_assignment]
    refine bind_reline hequality.1 fun target rest es hread => ?_
    cases rest with
    | nil => rfl
    | cons t rest =>
      have hlength := length_lt_of_cons (Bounded.length_lt_of_done hread)
      rw [List.map_cons]
      dsimp only
      rw [Token.kind_reline]
      split
      · refine bind_reline (ih .assignment rest hlength).1 fun value rest es _ => ?_
        cases target <;> rfl
      · rfl

theorem readLevel_reline (level : Level) (ts : List Token) :
    (readLevel (last.reline line) level (ts.map (Token.reline line))).reading =
      (readLevel last level ts).reading.reline line (Expr.reline line) :=
  (readsRelined level ts).1

/-! ## Declarations -/

/-- An expression and its semicolon. -/
theorem closed_reline {cause : ParseCause} {make make' : Expr → Stmt}
    (hmake : ∀ e, make' (e.reline line) = (make e).reline line) (ts : List Token) :
    ((readLevel (last.reline line) .assignment (ts.map (Token.reline line))).reading.bind
      fun e rest => (expect (last.reline line) .semicolon cause rest).reading.bind fun _ rest =>
        .done (make' e) rest []) =
      ((readLevel last .assignment ts).reading.bind fun e rest =>
        (expect last .semicolon cause rest).reading.bind fun _ rest =>
          .done (make e) rest []).reline line (Stmt.reline line) := by
  refine bind_reline (readLevel_reline .assignment ts) fun e rest es _ => ?_
  refine bind_reline (expect_reline last _ _ rest) fun _ rest es _ => ?_
  rw [hmake]
  rfl

theorem readVariable_reline (ts : List Token) :
    (readVariable (last.reline line) (ts.map (Token.reline line))).reading =
      (readVariable last ts).reading.reline line (Stmt.reline line) := by
  rw [reading_readVariable, reading_readVariable]
  refine bind_reline (expect_reline last _ _ ts) fun name rest es _ => ?_
  cases rest with
  | nil => exact bind_reline (expect_reline last _ _ []) fun _ _ _ _ => rfl
  | cons t rest =>
    rw [List.map_cons]
    dsimp only
    rw [Token.kind_reline]
    split
    · exact closed_reline (fun _ => rfl) rest
    · exact bind_reline (expect_reline last _ _ (t :: rest)) fun _ _ _ _ => rfl

theorem readSentence_reline (t : Token) (ts : List Token) :
    readSentence (last.reline line) (t.reline line) (ts.map (Token.reline line)) =
      (readSentence last t ts).reline line (Stmt.reline line) := by
  unfold readSentence
  rw [Token.kind_reline]
  split
  · exact readVariable_reline ts
  split
  · rw [reading_readPrint, reading_readPrint]
    exact closed_reline (fun _ => rfl) ts
  · rw [reading_readExpression, reading_readExpression]
    exact closed_reline (fun _ => rfl) (t :: ts)

theorem resumeBehind_reline (previous : Token) (ts : List Token) :
    resumeBehind (previous.reline line) (ts.map (Token.reline line)) =
      (resumeBehind previous ts).map (Token.reline line) := by
  induction ts generalizing previous with
  | nil => rfl
  | cons t ts ih =>
    rw [List.map_cons, resumeBehind, resumeBehind, Token.kind_reline, Token.kind_reline]
    split
    · rfl
    · exact ih t

theorem resume_reline (ts : List Token) :
    resume (ts.map (Token.reline line)) = (resume ts).map (Token.reline line) := by
  cases ts with
  | nil => rfl
  | cons t ts => exact resumeBehind_reline t ts

/-- The same declaration on other lines. -/
def Declaration.reline (line : Token → Int) (d : Declaration) : Declaration :=
  ⟨d.stmt?.map (Stmt.reline line), d.rest.map (Token.reline line),
    d.errors.map (ParseError.reline line)⟩

theorem Declaration.ofReading_reline (r : Reading Stmt) :
    ofReading (r.reline line (Stmt.reline line)) = (ofReading r).reline line := by
  cases r with
  | done s rest es => rfl
  | stuck rest es =>
    rw [Reading.reline, ofReading, resume_reline]
    rfl

theorem Stmt.relineAll_toList_append (s? : Option Stmt) (ss : List Stmt) :
    relineAll line (s?.toList ++ ss) = (s?.map (reline line)).toList ++ relineAll line ss := by
  cases s? <;> rfl

theorem declarations_reline (line : Token → Int) (last : Token) :
    (∀ ts, (readBlock (last.reline line) (ts.map (Token.reline line))).reading =
      (readBlock last ts).reading.reline line (Stmt.relineAll line)) ∧
    ∀ t ts, (readDeclaration (last.reline line) (t.reline line) (ts.map (Token.reline line))).1 =
      (readDeclaration last t ts).1.reline line := by
  refine declarations_induction last ?_ ?_ ?_ ?_ ?_
  · intro t ts ht
    have ht' : (t.reline line).kind ≠ .leftBrace := ht
    rw [readDeclaration_of_ne_leftBrace _ ht', readDeclaration_of_ne_leftBrace last ht,
      readSentence_reline, Declaration.ofReading_reline]
  · intro t ts ht hblock
    have ht' : (t.reline line).kind = .leftBrace := ht
    rw [readDeclaration_of_leftBrace _ ht', readDeclaration_of_leftBrace last ht,
      ← Declaration.ofReading_reline]
    exact congrArg Declaration.ofReading (bind_reline hblock fun _ _ _ _ => rfl)
  · rw [List.map_nil, reading_readBlock_nil, reading_readBlock_nil]
    rfl
  · intro t ts ht
    rw [List.map_cons, reading_readBlock_cons, reading_readBlock_cons, Token.kind_reline,
      if_pos ht, if_pos ht]
    rfl
  · intro t ts ht hd hblock
    rw [List.map_cons, reading_readBlock_cons, reading_readBlock_cons, Token.kind_reline,
      if_neg ht, if_neg ht]
    dsimp only
    rw [hd, Reading.reline_after]
    refine congrArg (Reading.after _) (bind_reline hblock fun ss rest es _ => ?_)
    rw [Reading.reline, Stmt.relineAll_toList_append]
    rfl

/-- The same program on other lines. -/
def Parsed.reline (line : Token → Int) (parsed : Parsed) : Parsed :=
  ⟨Stmt.relineAll line parsed.statements, parsed.errors.map (ParseError.reline line)⟩

/-- A program on other lines is read as the same statements with the same errors, on these
lines. -/
theorem readProgram_reline (line : Token → Int) (last : Token) (ts : List Token) :
    readProgram (last.reline line) (ts.map (Token.reline line)) =
      (readProgram last ts).reline line := by
  induction ts using program_induction last with
  | nil =>
    rw [List.map_nil, readProgram_nil, readProgram_nil]
    rfl
  | cons t ts ih =>
    rw [List.map_cons, readProgram_cons, readProgram_cons, (declarations_reline line last).2]
    dsimp only [Declaration.reline]
    rw [ih]
    simp only [Parsed.reline, Stmt.relineAll_toList_append, List.map_append]

/-- Tokens are parsed alike on other lines, if their end mark lies on these, too. -/
theorem parse_reline_of_endMark (line : Token → Int) {ts : List Token}
    (h : endMark (ts.map (Token.reline line)) = (endMark ts).reline line) :
    parse (ts.map (Token.reline line)) = (parse ts).reline line := by
  have htake : (ts.map (Token.reline line)).takeWhile (·.kind ≠ .eof) =
      (ts.takeWhile (·.kind ≠ .eof)).map (Token.reline line) := by
    rw [List.takeWhile_map]
    rfl
  rw [parse, h, htake, readProgram_reline]
  rfl

theorem find?_eof_reline (line : Token → Int) (ts : List Token) :
    (ts.map (Token.reline line)).find? (·.kind = .eof) =
      (ts.find? (·.kind = .eof)).map (Token.reline line) := by
  rw [List.find?_map]
  rfl

/-- Tokens with an end mark are parsed alike on other lines. Without one, the line of the end is
made up from the tokens. -/
theorem parse_reline (line : Token → Int) {ts : List Token} (h : ∃ t ∈ ts, t.kind = .eof) :
    parse (ts.map (Token.reline line)) = (parse ts).reline line := by
  refine parse_reline_of_endMark line ?_
  obtain ⟨t, ht⟩ : ∃ t, ts.find? (·.kind = .eof) = some t := by
    rw [← Option.isSome_iff_exists, List.find?_isSome]
    simpa using h
  rw [endMark, endMark, find?_eof_reline, ht]
  rfl

end LoxLang
