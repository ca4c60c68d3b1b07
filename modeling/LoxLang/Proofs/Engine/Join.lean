import LoxLang.Proofs.Engine.Record
import LoxLang.Proofs.Lexical.Join
import LoxLang.Proofs.Lines.Parse
import LoxLang.Proofs.Lines.Run
import LoxLang.Proofs.Machine.Output
import LoxLang.Proofs.Recovery.Clause
import Mathlib

/-! # Running a text in two pieces

A source without reports ends where a declaration ends. A second source on a new line behind it is
therefore scanned and parsed as it would be alone, only some lines further down
(`programOf_append_newline`, `syntaxReports_append_newline`), and executed from the state that the
first one leaves, unless a runtime error stops both (`run_append_newline`). -/

namespace LoxLang

/-! ## The program -/

theorem scan_errors_eq_nil {source : String} (h : syntaxReports source = []) :
    (scan source).errors = [] :=
  List.map_eq_nil_iff.mp (List.append_eq_nil_iff.mp h).1

theorem parse_errors_eq_nil {source : String} (h : syntaxReports source = []) :
    (parse (scan source).tokens).errors = [] :=
  List.map_eq_nil_iff.mp (List.append_eq_nil_iff.mp h).2

/-- The tokens of a source without reports derive its program. -/
theorem derives_programOf {source : String} (h : syntaxReports source = []) {ts : List Token}
    {last : Int} (hts : (scan source).tokens = ts ++ [Token.endAt last])
    (heof : ∀ t ∈ ts, t.kind ≠ .eof) : DerivesDeclarations ts (programOf source) := by
  have herrors := parse_errors_eq_nil h
  have hread : parse (scan source).tokens = readProgram (Token.endAt last) ts := by
    rw [hts, parse_append_eof heof rfl]
  rw [hread] at herrors
  rw [programOf, hread]
  exact derivesDeclarations_of_errors_eq_nil herrors

variable {a : String}

theorem parse_append_newline (ha : syntaxReports a = []) (b : String) :
    parse (scan (a ++ "\n" ++ b)).tokens =
      let below := (parse (scan b).tokens).reline fun t => t.line + lineCount a
      ⟨programOf a ++ below.statements, below.errors⟩ := by
  have hclosed := Segment.closed_of_errors_eq_nil (scan_errors_eq_nil ha)
  obtain ⟨⟨front, last, hfront, heof, htokens⟩, -⟩ := scan_append_newline hclosed b
  -- The tokens of the first source derive its program, so that they are read to their end.
  have hderives := derives_programOf ha hfront heof
  have hbelow : parse ((scan b).tokens.map (Token.shift (lineCount a))) = _ :=
    parse_reline _ (by
      obtain ⟨ts, last, hts, -⟩ := exists_scan_tokens_eq b
      exact ⟨Token.endAt last, by simp [hts], rfl⟩)
  obtain ⟨mark, hboth, hsecond⟩ :=
    parse_append heof ((scan b).tokens.map (Token.shift (lineCount a)))
  rw [htokens, hboth, hderives.readProgram_eq, ← hsecond, hbelow]

/-- The program of two sources is that of the first and that of the second on its lines. -/
theorem programOf_append_newline (ha : syntaxReports a = []) (b : String) :
    programOf (a ++ "\n" ++ b) =
      programOf a ++ Stmt.relineAll (fun t => t.line + lineCount a) (programOf b) := by
  rw [programOf, parse_append_newline ha]
  rfl

/-- The reports of two sources of which the first has none are those of the second, on its lines. -/
theorem syntaxReports_append_newline (ha : syntaxReports a = []) (b : String) :
    syntaxReports (a ++ "\n" ++ b) = (syntaxReports b).map (Report.shift (lineCount a)) := by
  have herrors := scan_errors_eq_nil ha
  obtain ⟨-, hscan⟩ := scan_append_newline (Segment.closed_of_errors_eq_nil herrors) b
  rw [herrors, List.nil_append] at hscan
  rw [syntaxReports, lexicalReports, hscan, parse_append_newline ha, syntaxReports, lexicalReports,
    List.map_append]
  simp only [Parsed.reline, List.map_map]
  rfl

/-! ## Its execution -/

/-- A second source is executed from the scopes that the first one leaves. -/
theorem run_programOf_of_ok {scopes : Chain} {m : Machine} (ha : syntaxReports a = [])
    (hrun : scopes.run (Stmt.toNodes (programOf a)) = (m, none)) (b : String) :
    scopes.run (Stmt.toNodes (programOf (a ++ "\n" ++ b))) =
      ((m.scopes.run (Stmt.toNodes (programOf b))).1.printedAfter m.printed,
        (m.scopes.run (Stmt.toNodes (programOf b))).2.map
          (Failure.reline fun t => t.line + lineCount a)) := by
  rw [programOf_append_newline ha, Stmt.toNodes_append, Chain.run_append_of_ok hrun,
    Chain.run_reline]

/-- A second source is not executed if the first one fails. -/
theorem run_programOf_of_error {scopes : Chain} {m : Machine} {f : Failure}
    (ha : syntaxReports a = []) (hrun : scopes.run (Stmt.toNodes (programOf a)) = (m, some f))
    (b : String) :
    scopes.run (Stmt.toNodes (programOf (a ++ "\n" ++ b))) = (m, some f) := by
  rw [programOf_append_newline ha, Stmt.toNodes_append, Chain.run_append_of_error hrun]

/-- Of two sources on lines of their own, the first without reports: the reports are those of the
second, moved down by the lines of the first. If there are none, running them in one piece does the
same as running them one after the other, provided that the first ends without a runtime error; and
it does the same as running the first alone if it ends by one. -/
theorem run_append_newline (s : Engine) (hs : s.log.hadError = false) (a b : String)
    (ha : syntaxReports a = []) :
    let joined := a ++ "\n" ++ b
    syntaxReports joined = (syntaxReports b).map (Report.shift (lineCount a)) ∧
    (s.run joined false).engine.log.reports = s.log.reports ++ syntaxReports joined ∧
    (syntaxReports b = [] →
      let first := s.run a false
      let second := first.engine.run b false
      let both := s.run joined false
      (first.engine.log.runtimeErrors = s.log.runtimeErrors →
        both.printed = first.printed ++ second.printed ∧
        both.engine.scopes = second.engine.scopes ∧ both.fault = none ∧
        ∃ errors, second.engine.log.runtimeErrors = s.log.runtimeErrors ++ errors ∧
          both.engine.log.runtimeErrors =
            s.log.runtimeErrors ++ errors.map (TokenError.shift (lineCount a))) ∧
      (first.engine.log.runtimeErrors ≠ s.log.runtimeErrors → both = first)) := by
  have hreports := syntaxReports_append_newline ha b
  refine ⟨hreports, Engine.reports_run s _ _, fun hb => ?_⟩
  have hjoined : syntaxReports (a ++ "\n" ++ b) = [] := by rw [hreports, hb, List.map_nil]
  dsimp only
  obtain ⟨m, hrun | ⟨e, hrun⟩⟩ := Chain.run_cases (programOf_legal a) s.scopes
  · have hboth := run_programOf_of_ok ha hrun b
    rw [Engine.run_of_ok hs ha false hrun]
    refine ⟨fun _ => ?_, fun hne => absurd rfl hne⟩
    have hs' : ({ s with scopes := m.scopes } : Engine).log.hadError = false := hs
    obtain ⟨m', hrun' | ⟨e, hrun'⟩⟩ := Chain.run_cases (programOf_legal b) m.scopes
    · rw [hrun'] at hboth
      rw [Engine.run_of_ok hs hjoined false hboth, Engine.run_of_ok hs' hb false hrun']
      exact ⟨rfl, rfl, rfl, [], (List.append_nil _).symm, (List.append_nil _).symm⟩
    · rw [hrun'] at hboth
      rw [Engine.run_of_runtime hs hjoined false hboth, Engine.run_of_runtime hs' hb false hrun']
      exact ⟨rfl, rfl, rfl, [e.toTokenError], rfl, rfl⟩
  · have hboth := run_programOf_of_error ha hrun b
    rw [Engine.run_of_runtime hs ha false hrun, Engine.run_of_runtime hs hjoined false hboth]
    refine ⟨fun heq => ?_, fun _ => rfl⟩
    exact absurd (List.append_right_eq_self.mp heq) (List.cons_ne_nil _ _)

/-- An undefined variable on the third line. -/
theorem run_undefined_on_third_line :
    let s := Engine.empty false
    let undefined : TokenError :=
      ⟨.undefinedVariable, ⟨.identifier, "b", .nil, 3⟩, "Undefined variable 'b'."⟩
    s.log.hadError = false ∧ syntaxReports "print nil;\n" = [] ∧ syntaxReports "b;" = [] ∧
    (s.run "print nil;\n" false).engine.log.runtimeErrors = s.log.runtimeErrors ∧
    (s.run ("print nil;\n" ++ "\n" ++ "b;") false).printed = ["nil"] ∧
    (s.run ("print nil;\n" ++ "\n" ++ "b;") false).engine.log.runtimeErrors = [undefined] := by
  intro s undefined
  have hfirst : s.run "print nil;\n" false = ⟨s, ["nil"], none⟩ := by cbv
  have hsecond : s.run "b;" false =
      ⟨⟨s.log.withRuntimeErrors [undefined.shift (-2)], s.scopes⟩, [], none⟩ := by cbv
  have ha := Engine.reports_run s "print nil;\n" false
  have hb := Engine.reports_run s "b;" false
  rw [hfirst] at ha
  rw [hsecond] at hb
  obtain ⟨-, -, hboth⟩ := run_append_newline s rfl "print nil;\n" "b;" ha.symm
  obtain ⟨hprinted, -, -, errors, herror, herrors⟩ := (hboth hb.symm).1 (by rw [hfirst])
  rw [hfirst, hsecond] at hprinted herror
  refine ⟨rfl, ha.symm, hb.symm, by rw [hfirst], hprinted, ?_⟩
  rw [herrors, ← List.append_cancel_left herror]
  decide

end LoxLang
