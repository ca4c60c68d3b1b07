import LoxLang.Proofs.Engine.Record
import LoxLang.Proofs.Lines.Parse
import LoxLang.Proofs.Lines.Run
import Mathlib

/-! # Behaviour does not depend on lines

`unlined` puts everything on the first line: tokens, trees, reports, errors and what a log holds of
them. Parsing, interpreting and running commute with it (`parse_unlined`, `Engine.interpret_unlined`,
`Engine.runTokens_unlined`). Two things that are equal on one line differ in lines only; so two
programs that differ in lines only do the same, up to lines (`behaviour_ignores_lines`). -/

namespace LoxLang

def Stmt.unlinedAll : List Stmt → List Stmt := relineAll fun _ => 1

def Parsed.unlined : Parsed → Parsed := reline fun _ => 1

def TokenError.unlined : TokenError → TokenError := reline fun _ => 1

def Report.unlined (r : Report) : Report := { r with line := 1 }

def Diagnostic.unlined : Diagnostic → Diagnostic
  | .report r => .report r.unlined
  | .runtime message _ => .runtime message 1
  | .notice message internal => .notice message internal

def Log.unlined (log : Log) : Log :=
  { log with
    reports := log.reports.map Report.unlined
    runtimeErrors := log.runtimeErrors.map TokenError.unlined
    written := log.written.map Diagnostic.unlined }

def Engine.unlined (s : Engine) : Engine := { s with log := s.log.unlined }

def Outcome.unlined (o : Outcome) : Outcome := { o with engine := o.engine.unlined }

/-! ## Parsing -/

theorem endMark_unlined (ts : List Token) :
    endMark (ts.map Token.unlined) = (endMark ts).unlined := by
  rw [endMark, endMark, Token.unlined, find?_eof_reline]
  cases ts.find? (·.kind = .eof) with
  | some t => rfl
  | none =>
    -- Where an end mark is made up, it lies on the line of the last token, or on the first.
    have hline : ((ts.map Token.unlined).getLast?.map Token.line).getD 1 = 1 := by
      cases h : ts.getLast? <;> simp [List.getLast?_map, h, Token.unlined, Token.reline]
    exact congrArg Token.endAt hline

theorem parse_unlined (ts : List Token) : parse (ts.map Token.unlined) = (parse ts).unlined :=
  parse_reline_of_endMark _ (endMark_unlined ts)

theorem Parsed.reports_unlined (parsed : Parsed) :
    parsed.unlined.errors.map ParseError.report =
      (parsed.errors.map ParseError.report).map Report.unlined := by
  simp only [unlined, reline, List.map_map]
  rfl

/-! ## Logs -/

namespace Log

@[simp]
theorem hadError_unlined (log : Log) : log.unlined.hadError = log.hadError :=
  rfl

theorem withReports_unlined (log : Log) (rs : List Report) :
    (log.withReports rs).unlined = log.unlined.withReports (rs.map Report.unlined) := by
  simp [unlined, withReports, Diagnostic.unlined, Function.comp_def]

theorem withRuntimeErrors_unlined (log : Log) (es : List TokenError) :
    (log.withRuntimeErrors es).unlined =
      log.unlined.withRuntimeErrors (es.map TokenError.unlined) := by
  simp [unlined, withRuntimeErrors, Diagnostic.unlined, Function.comp_def, TokenError.unlined,
    TokenError.reline, Token.reline]

end Log

/-! ## Running -/

theorem RuntimeError.toTokenError_reline (line : Token → Int) (e : RuntimeError) :
    (e.reline line).toTokenError = e.toTokenError.reline line := by
  obtain ⟨cause, token⟩ := e
  cases cause <;> rfl

theorem Failure.runtimeError?_reline (line : Token → Int) (f : Failure) :
    (f.reline line).runtimeError? = f.runtimeError?.map (TokenError.reline line) := by
  cases f with
  | runtime e => exact congrArg some (e.toTokenError_reline line)
  | misplaced | noOperation => rfl

theorem Failure.fault?_reline (line : Token → Int) (f : Failure) :
    (f.reline line).fault? = f.fault? := by
  cases f <;> rfl

namespace Engine

theorem interpret_unlined (s : Engine) (ss : List Stmt) :
    s.unlined.interpret (Stmt.toNodes (Stmt.unlinedAll ss)) =
      (s.interpret (Stmt.toNodes ss)).unlined := by
  rw [interpret_eq, interpret_eq]
  dsimp only [unlined, Outcome.unlined]
  rw [Stmt.unlinedAll, Chain.run_reline, Log.withRuntimeErrors_unlined]
  cases (s.scopes.run (Stmt.toNodes ss)).2 with
  | none => rfl
  | some f =>
    simp only [Option.map_some, Option.bind_some, Failure.runtimeError?_reline,
      Failure.fault?_reline, Option.toList_map]
    rfl

/-- What a run does behind the scanning of its source. -/
def runTokens (s : Engine) (tokens : List Token) (echo : Bool) : Outcome :=
  let (statements, s) := s.parseTokens tokens
  if s.log.hadError then ⟨s, [], none⟩
  else s.interpret (Stmt.toNodes (if echo then echoed statements else statements))

theorem run_eq_runTokens (s : Engine) {source : String} (h : (LoxLang.scan source).errors = [])
    (echo : Bool) : s.run source echo = s.runTokens (LoxLang.scan source).tokens echo := by
  have hscan : s.scan source = ((LoxLang.scan source).tokens, s) := by
    rw [scan_eq, lexicalReports, h, List.map_nil, Log.withReports_nil]
  rw [run, parse, hscan]
  rfl

theorem parseTokens_unlined (s : Engine) (tokens : List Token) :
    s.unlined.parseTokens (tokens.map Token.unlined) =
      (Stmt.unlinedAll (s.parseTokens tokens).1, (s.parseTokens tokens).2.unlined) := by
  dsimp only [parseTokens, unlined]
  rw [parse_unlined, Log.reportAll_syntactic, Log.reportAll_syntactic, Log.withReports_unlined,
    Parsed.reports_unlined]
  rfl

theorem echoed_unlined (ss : List Stmt) :
    echoed (Stmt.unlinedAll ss) = Stmt.unlinedAll (echoed ss) := by
  cases ss with
  | nil => rfl
  | cons s rest => cases s <;> cases rest <;> rfl

theorem runTokens_unlined (s : Engine) (tokens : List Token) (echo : Bool) :
    s.unlined.runTokens (tokens.map Token.unlined) echo = (s.runTokens tokens echo).unlined := by
  rw [runTokens, runTokens, parseTokens_unlined]
  obtain ⟨ss, s⟩ := s.parseTokens tokens
  have hecho : (if echo then echoed (Stmt.unlinedAll ss) else Stmt.unlinedAll ss) =
      Stmt.unlinedAll (if echo then echoed ss else ss) := by
    cases echo <;> simp [echoed_unlined]
  have hgate : s.unlined.log.hadError = s.log.hadError := rfl
  dsimp only
  rw [hgate, hecho]
  split
  · rfl
  · exact interpret_unlined s _

end Engine

/-- Of two lists of tokens that differ in lines only: the statements they are parsed as differ in
lines only, and so do the reports, of which there are equally many; and interpreting the statements
in engines that differ in lines only prints the same, leaves the same scopes, and records the same
errors up to lines. So two sources that scan without errors, as tokens that differ in lines only, do
the same when they are run, up to lines. -/
theorem behaviour_ignores_lines :
    (∀ ts us : List Token, ts.map Token.unlined = us.map Token.unlined →
      (parse ts).unlined = (parse us).unlined ∧
      ((parse ts).errors.map ParseError.report).map Report.unlined =
        ((parse us).errors.map ParseError.report).map Report.unlined ∧
      ∀ s s' : Engine, s.unlined = s'.unlined →
        (s.interpret (Stmt.toNodes (parse ts).statements)).unlined =
          (s'.interpret (Stmt.toNodes (parse us).statements)).unlined) ∧
    ∀ a b : String, (scan a).errors = [] → (scan b).errors = [] →
      (scan a).tokens.map Token.unlined = (scan b).tokens.map Token.unlined →
      ∀ (s s' : Engine) (echo : Bool), s.unlined = s'.unlined →
        (s.run a echo).unlined = (s'.run b echo).unlined := by
  refine ⟨fun ts us htokens => ?_, fun a b ha hb htokens s s' echo hs => ?_⟩
  · have hparsed : (parse ts).unlined = (parse us).unlined := by
      rw [← parse_unlined, htokens, parse_unlined]
    have hstatements := congrArg Parsed.statements hparsed
    refine ⟨hparsed, ?_, fun s s' hs => ?_⟩
    · rw [← Parsed.reports_unlined, hparsed, Parsed.reports_unlined]
    · rw [← Engine.interpret_unlined, ← Engine.interpret_unlined, hs]
      exact congrArg (fun ss => s'.unlined.interpret (Stmt.toNodes ss)) hstatements
  · rw [s.run_eq_runTokens ha, s'.run_eq_runTokens hb, ← Engine.runTokens_unlined, htokens, hs,
      Engine.runTokens_unlined]

/-- A program that fails at run time, on the first line and behind a comment. -/
theorem layouts_run_alike :
    let a := "b;"
    let b := "//\nb;"
    let s := Engine.empty false
    (scan a).errors = [] ∧ (scan b).errors = [] ∧
    (scan a).tokens.map Token.unlined = (scan b).tokens.map Token.unlined ∧
    (scan a).tokens.getLast?.map Token.line = some 1 ∧
    (scan b).tokens.getLast?.map Token.line = some 2 ∧
    (s.run a true).unlined = (s.run b true).unlined := by
  intro a b s
  have ha : (scan a).errors = [] := by cbv
  have hb : (scan b).errors = [] := by cbv
  have htokens : (scan a).tokens.map Token.unlined = (scan b).tokens.map Token.unlined := by cbv
  refine ⟨ha, hb, htokens, by cbv, by cbv, ?_⟩
  exact behaviour_ignores_lines.2 a b ha hb htokens s s true rfl

end LoxLang
