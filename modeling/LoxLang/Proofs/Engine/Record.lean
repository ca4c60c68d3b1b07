import LoxLang.Proofs.Machine.Safety

/-! # What an engine records

The operations of an engine as equations. The reports of a source are a function of the source
(`syntaxReports`), and so is the program it is parsed as (`programOf`). Scanning and parsing record
the reports and do nothing else; a run records them and executes the program only if the log has no
syntax error (`Engine.run_of_open`, `Engine.run_of_closed`); and an execution records the runtime
error that ended it, if one did (`Engine.interpret_eq`). -/

namespace LoxLang

def LexError.report (e : LexError) : Report := ⟨e.line, "", e.cause.message⟩

def ParseError.report (e : ParseError) : Report := ⟨e.token.line, e.token.place, e.cause.message⟩

/-- The reports of scanning a source. -/
def lexicalReports (source : String) : List Report := (scan source).errors.map LexError.report

/-- The reports of scanning a source and of parsing its tokens. -/
def syntaxReports (source : String) : List Report :=
  lexicalReports source ++ (parse (scan source).tokens).errors.map ParseError.report

/-- The statements that a source is parsed as. -/
def programOf (source : String) : List Stmt := (parse (scan source).tokens).statements

/-- The program that a run of the source executes. -/
def runnable (source : String) (echo : Bool) : List Stmt :=
  if echo then Engine.echoed (programOf source) else programOf source

theorem programOf_legal (source : String) : Stmt.AllLegal (programOf source) :=
  parse_legal _

theorem runnable_legal (source : String) (echo : Bool) : Stmt.AllLegal (runnable source echo) := by
  unfold runnable
  split
  · exact Engine.allLegal_echoed (programOf_legal source)
  · exact programOf_legal source

/-- Legal statements end without a failure, or by a runtime error. -/
theorem Chain.run_cases {ss : List Stmt} (h : Stmt.AllLegal ss) (scopes : Chain) :
    ∃ m, scopes.run (Stmt.toNodes ss) = (m, none) ∨
      ∃ e, scopes.run (Stmt.toNodes ss) = (m, some (.runtime e)) := by
  have hruntime := run_isRuntime h scopes
  cases hrun : scopes.run (Stmt.toNodes ss) with
  | mk m f? =>
    cases f? with
    | none => exact ⟨m, .inl rfl⟩
    | some f =>
      obtain ⟨e, rfl⟩ := hruntime f (congrArg Prod.snd hrun)
      exact ⟨m, .inr ⟨e, rfl⟩⟩

/-! ## The log -/

namespace Log

/-- The log with reports added to it. -/
def withReports (log : Log) (rs : List Report) : Log :=
  { log with
    hadError := log.hadError || !rs.isEmpty
    reports := log.reports ++ rs
    written := log.written ++ rs.map .report }

/-- The log with runtime errors added to it. -/
def withRuntimeErrors (log : Log) (es : List TokenError) : Log :=
  { log with
    hadRuntimeError := log.hadRuntimeError || !es.isEmpty
    runtimeErrors := log.runtimeErrors ++ es
    written := log.written ++ es.map fun e => .runtime e.message e.token.line }

@[simp]
theorem withReports_nil (log : Log) : log.withReports [] = log := by
  simp [withReports]

@[simp]
theorem withRuntimeErrors_nil (log : Log) : log.withRuntimeErrors [] = log := by
  simp [withRuntimeErrors]

@[simp]
theorem runtimeErrors_withReports (log : Log) (rs : List Report) :
    (log.withReports rs).runtimeErrors = log.runtimeErrors :=
  rfl

@[simp]
theorem reports_withRuntimeErrors (log : Log) (es : List TokenError) :
    (log.withRuntimeErrors es).reports = log.reports :=
  rfl

@[simp]
theorem hadError_withRuntimeErrors (log : Log) (es : List TokenError) :
    (log.withRuntimeErrors es).hadError = log.hadError :=
  rfl

theorem withReports_append (log : Log) (rs rs' : List Report) :
    (log.withReports rs).withReports rs' = log.withReports (rs ++ rs') := by
  cases rs <;> simp [withReports]

theorem syntaxError_eq (log : Log) (r : Report) : log.syntaxError r = log.withReports [r] := by
  simp [syntaxError, withReports, write]

theorem runtimeError_eq (log : Log) (e : TokenError) :
    log.runtimeError e = log.withRuntimeErrors [e] := by
  simp [runtimeError, withRuntimeErrors, write]

theorem foldl_syntaxError (log : Log) (rs : List Report) :
    rs.foldl syntaxError log = log.withReports rs := by
  induction rs generalizing log with
  | nil => exact (withReports_nil log).symm
  | cons r rs ih =>
    rw [List.foldl_cons, ih, syntaxError_eq, withReports_append]
    rfl

theorem reportAll_lexical (log : Log) (es : List LexError) :
    log.reportAll (es.map LexError.toError) = log.withReports (es.map LexError.report) := by
  have hreport : Error.report? ∘ LexError.toError = some ∘ LexError.report := rfl
  rw [reportAll, foldl_syntaxError, List.filterMap_map, hreport, ← List.filterMap_map,
    List.filterMap_some]

theorem reportAll_syntactic (log : Log) (es : List ParseError) :
    log.reportAll (es.map ParseError.toError) = log.withReports (es.map ParseError.report) := by
  have hreport : Error.report? ∘ ParseError.toError = some ∘ ParseError.report := rfl
  rw [reportAll, foldl_syntaxError, List.filterMap_map, hreport, ← List.filterMap_map,
    List.filterMap_some]

end Log

/-! ## The engine -/

/-- The runtime error that a failure is reported as. -/
def Failure.runtimeError? : Failure → Option TokenError
  | .runtime e => some e.toTokenError
  | _ => none

/-- The fault by which a failure goes on to the caller, unless it is a runtime error. -/
def Failure.fault? : Failure → Option Fault
  | .runtime _ => none
  | failure => some failure.toFault

namespace Engine

theorem scan_eq (s : Engine) (source : String) :
    s.scan source =
      ((LoxLang.scan source).tokens, { s with log := s.log.withReports (lexicalReports source) }) := by
  rw [scan, Log.reportAll_lexical]
  rfl

theorem parse_eq (s : Engine) (source : String) :
    s.parse source =
      (programOf source, { s with log := s.log.withReports (syntaxReports source) }) := by
  rw [parse, scan_eq]
  dsimp only [parseTokens]
  rw [Log.reportAll_syntactic, Log.withReports_append]
  rfl

theorem interpret_eq (s : Engine) (nodes : List Node) :
    s.interpret nodes =
      let ran := s.scopes.run nodes
      ⟨⟨s.log.withRuntimeErrors (ran.2.bind Failure.runtimeError?).toList, ran.1.scopes⟩,
        ran.1.printed, ran.2.bind Failure.fault?⟩ := by
  rw [interpret]
  obtain ⟨m, f?⟩ := s.scopes.run nodes
  cases f? with
  | none => simp
  | some f =>
    cases f with
    | runtime e => simp [Log.runtimeError_eq, Failure.runtimeError?, Failure.fault?]
    | misplaced | noOperation => simp [Failure.runtimeError?, Failure.fault?]

/-- With no syntax error in the log or in the source, a run executes the program. -/
theorem run_of_open {s : Engine} {source : String} (hs : s.log.hadError = false)
    (hsource : syntaxReports source = []) (echo : Bool) :
    s.run source echo = s.interpret (Stmt.toNodes (runnable source echo)) := by
  rw [run, parse_eq, hsource]
  simp [hs, runnable]

theorem run_of_ok {s : Engine} {source : String} {m : Machine} (hs : s.log.hadError = false)
    (hsource : syntaxReports source = []) (echo : Bool)
    (h : s.scopes.run (Stmt.toNodes (runnable source echo)) = (m, none)) :
    s.run source echo = ⟨{ s with scopes := m.scopes }, m.printed, none⟩ := by
  rw [run_of_open hs hsource, interpret, h]

theorem run_of_runtime {s : Engine} {source : String} {m : Machine} {e : RuntimeError}
    (hs : s.log.hadError = false) (hsource : syntaxReports source = []) (echo : Bool)
    (h : s.scopes.run (Stmt.toNodes (runnable source echo)) = (m, some (.runtime e))) :
    s.run source echo =
      ⟨⟨s.log.withRuntimeErrors [e.toTokenError], m.scopes⟩, m.printed, none⟩ := by
  rw [run_of_open hs hsource, interpret_eq, h]
  rfl

/-- With a syntax error in the log or in the source, a run records the reports and stops. -/
theorem run_of_closed {s : Engine} {source : String}
    (h : s.log.hadError = true ∨ syntaxReports source ≠ []) (echo : Bool) :
    s.run source echo =
      ⟨{ s with log := s.log.withReports (syntaxReports source) }, [], none⟩ := by
  have hgate : (s.log.withReports (syntaxReports source)).hadError = true := by
    rcases h with h | h <;> simp [Log.withReports, h]
  rw [run, parse_eq]
  dsimp only
  rw [if_pos hgate]

/-- A run adds the reports of its source, whether it executes the program or not. -/
theorem reports_run (s : Engine) (source : String) (echo : Bool) :
    (s.run source echo).engine.log.reports = s.log.reports ++ syntaxReports source := by
  by_cases h : s.log.hadError = true ∨ syntaxReports source ≠ []
  · rw [run_of_closed h]
    rfl
  · obtain ⟨hs, hsource⟩ := not_or.mp h
    have hsource := Decidable.not_not.mp hsource
    rw [run_of_open (eq_false_of_ne_true hs) hsource, interpret_eq, hsource,
      List.append_nil]
    rfl

end Engine
end LoxLang
