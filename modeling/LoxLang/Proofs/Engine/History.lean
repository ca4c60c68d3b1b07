import LoxLang.Proofs.Engine.Record
import Mathlib

/-! # The gate of an engine over its history

A history is a list of steps from an engine in which nothing happened. What the log holds after it
is what the steps since the last reset added, in order (`records_after`): each step adds the reports
of its own source, whatever was recorded before, and an execution adds the runtime error that ends
it. Whether a run executes its program depends on the reports only (`gated_run`). -/

namespace LoxLang
namespace Engine

/-- What can be done with an engine. A file is given by what is found at its path. -/
inductive Step where
  | run (source : String) (echo : Bool)
  | runFile (path : String) (file : SourceFile)
  | scan (source : String)
  | parse (source : String)
  | reset

/-- Takes a step. -/
def perform (s : Engine) : Step → Outcome
  | .run source echo => s.run source echo
  | .runFile path file => s.runFile path file
  | .scan source => ⟨(s.scan source).2, [], none⟩
  | .parse source => ⟨(s.parse source).2, [], none⟩
  | .reset => ⟨s.reset, [], none⟩

/-- The engine after steps. -/
def after (s : Engine) (steps : List Step) : Engine :=
  steps.foldl (fun s step => (s.perform step).engine) s

namespace Step

def isReset : Step → Bool
  | reset => true
  | _ => false

/-- The reports of the source that a step treats. -/
def reports : Step → List Report
  | run source _ | parse source => syntaxReports source
  | scan source => lexicalReports source
  | runFile path file =>
    match file.source path with
    | .ok source => syntaxReports source
    | .error _ => []
  | reset => []

/-- The program that a step is to execute. -/
def program : Step → List Stmt
  | run source echo => runnable source echo
  | runFile path file =>
    match file.source path with
    | .ok source => programOf source
    | .error _ => []
  | scan _ | parse _ | reset => []

/-- The steps behind the last reset. -/
def sinceReset (steps : List Step) : List Step := steps.rtakeWhile (!·.isReset)

/-- The steps up to the last reset. -/
def untilReset (steps : List Step) : List Step := steps.rdropWhile (!·.isReset)

end Step

/-- The runtime error of a step: the one that ends the execution of its program, provided that
there is no report, neither of the step nor in the log. -/
def raised (s : Engine) (step : Step) : Option TokenError :=
  if s.log.reports ++ step.reports = [] then
    (s.scopes.run (Stmt.toNodes step.program)).2.bind Failure.runtimeError?
  else none

/-- The runtime errors of steps that are taken one after the other. -/
def raisedAll (s : Engine) : List Step → List TokenError
  | [] => []
  | step :: rest => (s.raised step).toList ++ (s.perform step).engine.raisedAll rest

/-- The log holds these reports and runtime errors, and its flags say whether there are any. -/
structure Records (log : Log) (rs : List Report) (es : List TokenError) : Prop where
  reports : log.reports = rs
  runtimeErrors : log.runtimeErrors = es
  hadError : log.hadError = true ↔ rs ≠ []
  hadRuntimeError : log.hadRuntimeError = true ↔ es ≠ []

/-- What comes of running a source in `s`, where `recorded` are the reports since the last reset
and those of the source. -/
structure Gated (s : Engine) (recorded : List Report) (source : String) (echo : Bool)
    (o : Outcome) : Prop where
  /-- Without a report, the program is executed, and the gate stays open. -/
  executes : recorded = [] → o = s.interpret (Stmt.toNodes (runnable source echo)) ∧
    o.engine.log.hadError = false
  /-- With a report, nothing is executed. -/
  withholds : recorded ≠ [] → o.printed = [] ∧ o.engine.scopes = s.scopes ∧
    o.engine.log.runtimeErrors = s.log.runtimeErrors
  reports : o.engine.log.reports = recorded
  /-- One runtime error is added, or none. -/
  runtimeErrors : ∃ error? : Option TokenError,
    o.engine.log.runtimeErrors = s.log.runtimeErrors ++ error?.toList
  fault : o.fault = none

/-! ## One step -/

namespace Records

variable {log : Log} {rs : List Report} {es : List TokenError}

theorem withReports (h : Records log rs es) (rs' : List Report) :
    Records (log.withReports rs') (rs ++ rs') es where
  reports := congrArg (· ++ rs') h.reports
  runtimeErrors := h.runtimeErrors
  hadError := by
    have herror := h.hadError
    cases rs' with
    | nil => simpa [Log.withReports] using herror
    | cons r rs' => simp [Log.withReports]
  hadRuntimeError := h.hadRuntimeError

theorem withRuntimeErrors (h : Records log rs es) (es' : List TokenError) :
    Records (log.withRuntimeErrors es') rs (es ++ es') where
  reports := h.reports
  runtimeErrors := congrArg (· ++ es') h.runtimeErrors
  hadError := h.hadError
  hadRuntimeError := by
    have herror := h.hadRuntimeError
    cases es' with
    | nil => simpa [Log.withRuntimeErrors] using herror
    | cons e es' => simp [Log.withRuntimeErrors]

theorem reset (log : Log) : Records log.reset [] [] :=
  ⟨rfl, rfl, ⟨nofun, nofun⟩, ⟨nofun, nofun⟩⟩

theorem hadError_eq_false (h : Records log rs es) (hrs : rs = []) : log.hadError = false := by
  rw [← Bool.not_eq_true]
  exact fun herror => h.hadError.mp herror hrs

end Records

variable {s : Engine} {rs : List Report} {es : List TokenError}

theorem raised_of_ne_nil {step : Step} (h : s.log.reports ++ step.reports ≠ []) :
    s.raised step = none :=
  if_neg h

theorem raised_of_program_eq_nil {step : Step} (h : step.program = []) : s.raised step = none := by
  rw [raised, h]
  split <;> rfl

/-- The log of a run: its reports are added in any case, its runtime error if it executes. -/
theorem log_run (h : Records s.log rs es) (source : String) (echo : Bool) :
    (s.run source echo).engine.log =
      (s.log.withReports (syntaxReports source)).withRuntimeErrors
        (s.raised (.run source echo)).toList := by
  by_cases hgate : s.log.reports ++ (Step.run source echo).reports = []
  · obtain ⟨hlog, hsource⟩ := List.append_eq_nil_iff.mp hgate
    have hopen := h.hadError_eq_false (h.reports ▸ hlog)
    have hsource : syntaxReports source = [] := hsource
    rw [run_of_open hopen hsource, interpret_eq, hsource, Log.withReports_nil, raised, if_pos hgate]
    rfl
  · have hclosed : s.log.hadError = true ∨ syntaxReports source ≠ [] := by
      by_cases hsource : syntaxReports source = []
      · refine .inl (h.hadError.mpr fun hrs => hgate ?_)
        rw [h.reports, hrs, List.nil_append]
        exact hsource
      · exact .inr hsource
    rw [run_of_closed hclosed, raised_of_ne_nil hgate]
    exact (Log.withRuntimeErrors_nil _).symm

/-- A step other than a reset adds its reports and its runtime error to the log. -/
theorem log_perform (h : Records s.log rs es) {step : Step} (hstep : step.isReset = false) :
    (s.perform step).engine.log =
      (s.log.withReports step.reports).withRuntimeErrors (s.raised step).toList := by
  cases step with
  | run source echo => exact log_run h source echo
  | runFile path file =>
    rw [perform, runFile]
    cases hfile : file.source path with
    | ok source =>
      have hreports : (Step.runFile path file).reports = syntaxReports source := by
        rw [Step.reports, hfile]
      have hprogram : (Step.runFile path file).program = programOf source := by
        rw [Step.program, hfile]
      have hraised : s.raised (.runFile path file) = s.raised (.run source false) := by
        rw [raised, raised, hreports, hprogram]
        rfl
      rw [hreports, hraised]
      exact log_run h source false
    | error fault =>
      have hprogram : (Step.runFile path file).program = [] := by rw [Step.program, hfile]
      rw [raised_of_program_eq_nil hprogram, Step.reports, hfile]
      simp
  | scan source =>
    rw [perform, scan_eq, raised_of_program_eq_nil rfl]
    exact (Log.withRuntimeErrors_nil _).symm
  | parse source =>
    rw [perform, parse_eq, raised_of_program_eq_nil rfl]
    exact (Log.withRuntimeErrors_nil _).symm
  | reset => cases hstep

theorem gated_run (h : Records s.log rs es) (source : String) (echo : Bool) :
    Gated s (rs ++ syntaxReports source) source echo (s.run source echo) := by
  have hlog := log_run h source echo
  refine ⟨fun hopen => ?_, fun hclosed => ?_, ?_, ⟨s.raised (.run source echo), ?_⟩,
    run_fault_eq_none s source echo⟩
  · obtain ⟨hrs, hsource⟩ := List.append_eq_nil_iff.mp hopen
    have hfalse := h.hadError_eq_false hrs
    refine ⟨run_of_open hfalse hsource echo, ?_⟩
    rw [hlog, hsource, Log.withReports_nil, Log.hadError_withRuntimeErrors, hfalse]
  · have hgate : s.log.hadError = true ∨ syntaxReports source ≠ [] := by
      rw [h.hadError, ← not_and_or, ← List.append_eq_nil_iff]
      exact hclosed
    rw [run_of_closed hgate]
    exact ⟨rfl, rfl, rfl⟩
  · rw [hlog, ← h.reports]
    rfl
  · rw [hlog]
    rfl

/-! ## Histories -/

theorem after_concat (s : Engine) (steps : List Step) (step : Step) :
    s.after (steps ++ [step]) = ((s.after steps).perform step).engine := by
  rw [after, List.foldl_concat]
  rfl

theorem raisedAll_concat (s : Engine) (steps : List Step) (step : Step) :
    s.raisedAll (steps ++ [step]) = s.raisedAll steps ++ ((s.after steps).raised step).toList := by
  induction steps generalizing s with
  | nil => simp [raisedAll, after]
  | cons first steps ih =>
    rw [List.cons_append, raisedAll, raisedAll, ih, List.append_assoc]
    rfl

theorem after_untilReset (s : Engine) (steps : List Step) :
    (s.after (Step.untilReset steps)).after (Step.sinceReset steps) = s.after steps := by
  rw [after, after, ← List.foldl_append, Step.untilReset, Step.sinceReset,
    List.rdropWhile_append_rtakeWhile]
  rfl

theorem sinceReset_concat {step : Step} (hstep : step.isReset = false) (steps : List Step) :
    Step.sinceReset (steps ++ [step]) = Step.sinceReset steps ++ [step] ∧
      Step.untilReset (steps ++ [step]) = Step.untilReset steps :=
  ⟨List.rtakeWhile_concat_pos _ _ _ (by simp [hstep]),
    List.rdropWhile_concat_pos _ _ _ (by simp [hstep])⟩

/-- The log holds what the steps since the last reset added. -/
theorem records_after (fatal : Bool) (steps : List Step) :
    Records ((empty fatal).after steps).log ((Step.sinceReset steps).flatMap Step.reports)
      (((empty fatal).after (Step.untilReset steps)).raisedAll (Step.sinceReset steps)) := by
  induction steps using List.reverseRecOn with
  | nil => exact ⟨rfl, rfl, ⟨nofun, nofun⟩, ⟨nofun, nofun⟩⟩
  | append_singleton steps step ih =>
    rw [after_concat]
    cases hstep : step.isReset with
    | true =>
      have hsince : Step.sinceReset (steps ++ [step]) = [] :=
        List.rtakeWhile_concat_neg _ _ _ (by simp [hstep])
      rw [hsince]
      cases step with
      | reset => exact .reset _
      | run | runFile | scan | parse => cases hstep
    | false =>
      obtain ⟨hsince, huntil⟩ := sinceReset_concat hstep steps
      rw [log_perform ih hstep, hsince, huntil, List.flatMap_append, List.flatMap_singleton,
        raisedAll_concat, after_untilReset]
      exact (ih.withReports step.reports).withRuntimeErrors _

/-- After every history the log holds exactly what the steps since the last reset added, in order,
and its flags say whether that is anything. A run that follows executes its program if and only if
there is no report since the last reset, its own included; else it only adds its reports. So does
the run of a file that is read; a file that cannot be opened changes nothing. -/
theorem gate_of_history (fatal : Bool) (steps : List Step) :
    let s := (empty fatal).after steps
    Records s.log ((Step.sinceReset steps).flatMap Step.reports)
      (((empty fatal).after (Step.untilReset steps)).raisedAll (Step.sinceReset steps)) ∧
    (∀ source echo,
      Gated s ((Step.sinceReset (steps ++ [.run source echo])).flatMap Step.reports) source echo
        (s.perform (.run source echo))) ∧
    (∀ path source, s.perform (.runFile path (.text source)) = s.perform (.run source false)) ∧
    ∀ path, s.perform (.runFile path .unopenable) =
      ⟨s, [], some (.error (.general ("'" ++ path ++ "' could not be opened") false 66))⟩ := by
  have hrecords := records_after fatal steps
  refine ⟨hrecords, fun source echo => ?_, fun path source => rfl, fun path => rfl⟩
  rw [(sinceReset_concat rfl steps).1, List.flatMap_append, List.flatMap_singleton]
  exact gated_run hrecords source echo

/-- A variable is declared, and then a wrong character is scanned. A program that prints the
variable prints nothing as long as that is recorded, and the value behind a reset. -/
theorem gate_closed_until_reset :
    let steps : List Step := [.run "var a = true;" false, .scan "@"]
    let closed := (empty false).after steps
    let opened := (empty false).after (steps ++ [.reset])
    let step := Step.run "print a;" false
    (closed.log.hadError = true ∧ (closed.perform step).printed = [] ∧
      (closed.perform step).engine.scopes = closed.scopes) ∧
    (opened.log.hadError = false ∧ (opened.perform step).printed = ["true"]) := by
  intro steps closed opened step
  obtain ⟨hclosed, hwithheld, -⟩ := gate_of_history false steps
  obtain ⟨hopened, hexecuted, -⟩ := gate_of_history false (steps ++ [.reset])
  have hrecorded : (Step.sinceReset (steps ++ [step])).flatMap Step.reports =
      [⟨1, "", "Unexpected character."⟩] := by cbv
  have hnone : (Step.sinceReset (steps ++ [.reset] ++ [step])).flatMap Step.reports = [] := by cbv
  have hwithholds := (hwithheld "print a;" false).withholds (by rw [hrecorded]; simp)
  have hexecutes := (hexecuted "print a;" false).executes hnone
  refine ⟨⟨hclosed.hadError.mpr (by cbv; simp), hwithholds.1, hwithholds.2.1⟩,
    hopened.hadError_eq_false (by cbv), ?_⟩
  rw [hexecutes.1]
  cbv

end Engine
end LoxLang
