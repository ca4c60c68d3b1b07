import LoxLang.Proofs.Engine.History
import LoxLang.Proofs.Engine.Join
import LoxLang.Proofs.Repl.Lines

/-! # The loop and scripts

The lines that are typed into a loop are cut into the sources that it runs, and the script of all
lines is put together from these sources and from blank lines. So a script does what the loop did,
provided that nothing went wrong in it: only the values are missing that the loop shows of single
expressions (`run_script_eq`). -/

namespace LoxLang

/-! ## Scripts -/

/-- The source has no reports, and its program runs from the scopes to the state. -/
structure Executes (scopes : Chain) (source : String) (m : Machine) : Prop where
  reports : syntaxReports source = []
  run : scopes.run (Stmt.toNodes (programOf source)) = (m, none)

namespace Executes

variable {scopes : Chain} {m m' : Machine} {a b : String}

theorem empty (scopes : Chain) : Executes scopes "" ⟨scopes, []⟩ := by
  have hprogram : programOf "" = [] := by cbv
  refine ⟨by cbv, ?_⟩
  rw [hprogram]
  rfl

theorem append_newline (ha : Executes scopes a m) (hb : Executes m.scopes b m') :
    Executes scopes (a ++ "\n" ++ b) (m'.printedAfter m.printed) where
  reports := by rw [syntaxReports_append_newline ha.reports, hb.reports, List.map_nil]
  run := by
    rw [run_programOf_of_ok ha.reports ha.run, hb.run]
    rfl

/-- A line in front of lines is executed before them. -/
theorem cons {lines : List String} (ha : Executes scopes a m)
    (hlines : Executes m.scopes (String.intercalate "\n" lines) m') :
    Executes scopes (String.intercalate "\n" (a :: lines)) (m'.printedAfter m.printed) := by
  by_cases hnil : lines = []
  · subst hnil
    have hend := hlines.run.symm.trans (empty m.scopes).run
    obtain rfl : m' = ⟨m.scopes, []⟩ := congrArg Prod.fst hend
    rw [String.intercalate_singleton, Machine.printedAfter, List.append_nil]
    exact ha
  · rw [String.intercalate_cons_of_ne_nil hnil]
    exact ha.append_newline hlines

theorem run_eq {s : Engine} (hs : s.log.hadError = false) (h : Executes s.scopes a m) :
    s.run a false = ⟨{ s with scopes := m.scopes }, m.printed, none⟩ :=
  Engine.run_of_ok hs h.reports false h.run

end Executes

/-! ## The runs of a loop -/

/-- A source that a loop runs, and the engine in which it does. -/
structure Run where
  engine : Engine
  source : String

namespace Run

def outcome (run : Run) : Outcome := run.engine.run run.source true

/-- Nothing went wrong in the run. -/
structure Clean (run : Run) : Prop where
  reports : run.outcome.engine.log.reports = []
  runtimeErrors : run.outcome.engine.log.runtimeErrors = []

/-- What the run printed, without the value that is shown of a single expression. -/
def unechoed (run : Run) : List String :=
  match programOf run.source with
  | [.expression _] => run.outcome.printed.dropLast
  | _ => run.outcome.printed

end Run

/-- The runs that lines lead to. -/
def Repl.runs (r : Repl) : List String → List Run
  | [] => []
  | line :: rest => ((r.source? line).map (Run.mk r.engine)).toList ++ (r.step line).repl.runs rest

theorem runnable_of_expression {source : String} {e : Expr}
    (h : programOf source = [.expression e]) : runnable source true = [.print e] := by
  rw [runnable, h]
  rfl

theorem echoed_of_no_expression {ss : List Stmt} (h : ∀ e, ss ≠ [.expression e]) :
    Engine.echoed ss = ss := by
  unfold Engine.echoed
  split
  · next e => exact absurd rfl (h e)
  · rfl

namespace Run

variable {run : Run}

/-- A clean run executes its program to the end. -/
theorem Clean.run_eq (h : run.Clean) (hlog : Engine.Records run.engine.log [] []) :
    syntaxReports run.source = [] ∧
      run.engine.scopes.run (Stmt.toNodes (runnable run.source true)) =
        (⟨run.outcome.engine.scopes, run.outcome.printed⟩, none) := by
  have hopen := hlog.hadError_eq_false rfl
  have hreports : syntaxReports run.source = [] := by
    have hreports := h.reports
    rw [outcome, Engine.reports_run, List.append_eq_nil_iff] at hreports
    exact hreports.2
  refine ⟨hreports, ?_⟩
  obtain ⟨m, hrun | ⟨e, hrun⟩⟩ :=
    Chain.run_cases (runnable_legal run.source true) run.engine.scopes
  · rw [outcome, Engine.run_of_ok hopen hreports true hrun]
    exact hrun
  · have herrors := h.runtimeErrors
    rw [outcome, Engine.run_of_runtime hopen hreports true hrun] at herrors
    exact absurd (List.append_eq_nil_iff.mp herrors).2 (List.cons_ne_nil _ _)

/-- The run of a single expression prints its value; its program prints nothing. -/
theorem Clean.executes_of_expression (h : run.Clean)
    (hlog : Engine.Records run.engine.log [] []) {e : Expr}
    (hprogram : programOf run.source = [.expression e]) :
    Executes run.engine.scopes run.source ⟨run.outcome.engine.scopes, []⟩ ∧
      ∃ v, (run.engine.scopes.evaluate e.toNode).1 = .ok v ∧
        run.outcome.printed = [v.display] := by
  obtain ⟨hreports, hrun⟩ := h.run_eq hlog
  rw [runnable_of_expression hprogram] at hrun
  cases heval : run.engine.scopes.evaluate e.toNode with
  | mk result scopes =>
    cases result with
    | ok v =>
      obtain ⟨hprint, hexpression⟩ := Chain.run_of_evaluate_eq_ok heval
      have hend := congrArg Prod.fst (hprint.symm.trans hrun)
      obtain ⟨rfl, hprinted⟩ := Machine.mk.inj hend
      refine ⟨⟨hreports, ?_⟩, v, rfl, hprinted.symm⟩
      rw [hprogram]
      exact hexpression
    | error f =>
      have hfailure := Chain.run_of_evaluate_eq_error heval
      cases hfailure.symm.trans (congrArg Prod.snd hrun)

theorem Clean.executes (h : run.Clean) (hlog : Engine.Records run.engine.log [] []) :
    Executes run.engine.scopes run.source ⟨run.outcome.engine.scopes, run.unechoed⟩ := by
  unfold unechoed
  split
  · next e hprogram =>
    obtain ⟨hexecutes, v, -, hprinted⟩ := h.executes_of_expression hlog hprogram
    rw [hprinted]
    exact hexecutes
  · next hprogram =>
    obtain ⟨hreports, hrun⟩ := h.run_eq hlog
    rw [runnable, if_pos rfl, echoed_of_no_expression hprogram] at hrun
    exact ⟨hreports, hrun⟩

end Run

/-! ## Lines -/

namespace Repl

variable {r : Repl} {lines : List String}

/-- A loop runs its sources with a clean log. -/
theorem records_of_mem_runs (hlog : Engine.Records r.engine.log [] [])
    (hplain : ∀ line ∈ lines, Plain line) :
    ∀ run ∈ r.runs lines, Engine.Records run.engine.log [] [] := by
  induction lines generalizing r with
  | nil => exact List.forall_mem_nil _
  | cons line lines ih =>
    obtain ⟨hline, hplain⟩ := List.forall_mem_cons.mp hplain
    rw [runs]
    obtain ⟨-, -, hsource, hstep⟩ | ⟨hsource, hstep⟩ | ⟨hsource, hstep⟩ := r.step_cases hline
    · rw [hsource, hstep]
      exact ih hlog hplain
    · rw [hsource, hstep]
      exact ih hlog hplain
    · rw [hsource, hstep]
      exact List.forall_mem_cons.mpr ⟨hlog, ih (.reset _) hplain⟩

/-- A loop shows what its runs print. -/
theorem output_eq (r : Repl) (hplain : ∀ line ∈ lines, Plain line) :
    r.output lines = (r.runs lines).map fun run => .program run.outcome.text := by
  induction lines generalizing r with
  | nil => rfl
  | cons line lines ih =>
    obtain ⟨hline, hplain⟩ := List.forall_mem_cons.mp hplain
    rw [runs, output, ih _ hplain]
    obtain ⟨-, -, hsource, hstep⟩ | ⟨hsource, hstep⟩ | ⟨hsource, hstep⟩ := r.step_cases hline
    all_goals
      rw [hsource, hstep]
      rfl

/-- The script of the pending lines and of those that follow does what the runs do. -/
theorem executes (hlog : Engine.Records r.engine.log [] []) (hplain : ∀ line ∈ lines, Plain line)
    (hpending : (r.after lines).pending = "") (hruns : ∀ run ∈ r.runs lines, run.Clean) :
    Executes r.engine.scopes (r.pending ++ String.intercalate "\n" lines)
      ⟨(r.after lines).engine.scopes, (r.runs lines).flatMap Run.unechoed⟩ := by
  -- The induction is on the lines, for every loop: each line changes what is pending or the engine.
  induction lines generalizing r with
  | nil =>
    have hpending : r.pending = "" := hpending
    rw [hpending]
    exact .empty r.engine.scopes
  | cons line lines ih =>
    obtain ⟨hline, hplain⟩ := List.forall_mem_cons.mp hplain
    have hafter : r.after (line :: lines) = (r.step line).repl.after lines := rfl
    rw [← String.intercalate_cons_append, hafter]
    rw [hafter] at hpending
    rw [runs] at hruns ⊢
    obtain ⟨hblank, hempty, hsource, hstep⟩ | ⟨hsource, hstep⟩ | ⟨hsource, hstep⟩ :=
      r.step_cases hline
    -- A blank line outside of a block is an empty line of the script.
    · rw [hsource, hstep] at hruns ⊢
      rw [hstep] at hpending
      have hlines := ih hlog hplain hpending hruns
      rw [hempty, String.empty_append] at hlines
      rw [hblank, hempty]
      exact (Executes.empty r.engine.scopes).cons hlines
    -- Lines that are kept back stay in front of the others; they are not the last ones.
    · rw [hsource, hstep] at hruns ⊢
      rw [hstep] at hpending
      have hlines : Executes _ (r.pending ++ line ++ "\n" ++ String.intercalate "\n" lines) _ :=
        ih (r := (r.kept line).repl) hlog hplain hpending hruns
      have hne : lines ≠ [] := by
        rintro rfl
        simp [after, kept] at hpending
      rwa [String.intercalate_cons_of_ne_nil hne]
    -- A source that is run is the first part of the script, and nothing is pending behind it.
    · rw [hsource, hstep] at hruns ⊢
      rw [hstep] at hpending
      obtain ⟨hrun, hruns⟩ := List.forall_mem_cons.mp hruns
      have hlines := ih (.reset _) hplain hpending hruns
      have hnone : (r.ran (r.pending ++ line)).repl.pending = "" := rfl
      rw [hnone, String.empty_append] at hlines
      exact (hrun.executes hlog).cons hlines

end Repl

/-- Lines that are no commands are typed into a loop; at the end no block is open, and nothing went
wrong in any run. Then the script of these lines leaves a clean log and the same scopes, and prints
what the runs of the loop printed, without the values that were shown of single expressions. Such a
value is shown in a run if and only if its source is a single expression, and is then all that the
run prints. -/
theorem run_script_eq (fatal fatal' : Bool) (lines : List String)
    (hplain : ∀ line ∈ lines, Plain line)
    (hpending : ((Repl.ofEngine (.empty fatal)).after lines).pending = "")
    (hruns : ∀ run ∈ (Repl.ofEngine (.empty fatal)).runs lines, run.Clean) :
    let loop := Repl.ofEngine (.empty fatal)
    let script := (Engine.empty fatal').run (String.intercalate "\n" lines) false
    script.engine.log = .empty fatal' ∧ script.fault = none ∧
    script.engine.scopes = (loop.after lines).engine.scopes ∧
    script.printed = (loop.runs lines).flatMap Run.unechoed ∧
    loop.output lines = (loop.runs lines).map (fun run => .program run.outcome.text) ∧
    ∀ run ∈ loop.runs lines,
      (∀ e, programOf run.source = [.expression e] →
        ∃ v, (run.engine.scopes.evaluate e.toNode).1 = .ok v ∧
          run.outcome.printed = [v.display]) ∧
      ((∀ e, programOf run.source ≠ [.expression e]) →
        run.outcome = run.engine.run run.source false) := by
  have hlog : Engine.Records (Repl.ofEngine (.empty fatal)).engine.log [] [] :=
    .reset (.empty fatal)
  have hscript := Repl.executes hlog hplain hpending hruns
  have hnone : (Repl.ofEngine (.empty fatal)).pending = "" := rfl
  rw [hnone, String.empty_append] at hscript
  have hrun := hscript.run_eq (s := .empty fatal') rfl
  dsimp only
  rw [hrun]
  refine ⟨rfl, rfl, rfl, rfl, Repl.output_eq _ hplain, fun run hmem => ⟨?_, ?_⟩⟩
  · intro e hprogram
    have hrecords := Repl.records_of_mem_runs hlog hplain run hmem
    exact ((hruns run hmem).executes_of_expression hrecords hprogram).2
  · intro hprogram
    rw [Run.outcome, Engine.run, Engine.run, Engine.parse_eq]
    dsimp only
    rw [if_pos rfl, if_neg Bool.false_ne_true, echoed_of_no_expression hprogram]

/-- A block over two lines, a blank line, and an expression whose value is shown. -/
def blockLines : List String := ["\x7b", "print nil;\x7d", "", "nil;"]

theorem plain_of_mem_blockLines : ∀ line ∈ blockLines, Plain line := by
  simp only [blockLines, List.forall_mem_cons]
  refine ⟨⟨?_, ?_, ?_⟩, ⟨?_, ?_, ?_⟩, ⟨?_, ?_, ?_⟩, ⟨?_, ?_, ?_⟩, nofun⟩
  all_goals decide

theorem pending_blockLines : ((Repl.ofEngine (.empty false)).after blockLines).pending = "" := by
  cbv

theorem runs_blockLines : (Repl.ofEngine (.empty false)).runs blockLines =
    [⟨.empty false, "\x7b\nprint nil;\x7d"⟩, ⟨.empty false, "nil;"⟩] := by
  cbv

theorem clean_of_mem_runs_blockLines :
    ∀ run ∈ (Repl.ofEngine (.empty false)).runs blockLines, run.Clean := by
  rw [runs_blockLines, List.forall_mem_cons, List.forall_mem_singleton]
  exact ⟨⟨by cbv, by cbv⟩, ⟨by cbv, by cbv⟩⟩

theorem run_script_blockLines :
    (∀ line ∈ blockLines, Plain line) ∧
    ((Repl.ofEngine (.empty false)).after blockLines).pending = "" ∧
    (∀ run ∈ (Repl.ofEngine (.empty false)).runs blockLines, run.Clean) ∧
    (Repl.ofEngine (.empty false)).output blockLines = [.program "nil\n", .program "nil\n"] ∧
    ((Engine.empty true).run (String.intercalate "\n" blockLines) false).printed = ["nil"] := by
  obtain ⟨-, -, -, hprinted, houtput, -⟩ := run_script_eq false true blockLines
    plain_of_mem_blockLines pending_blockLines clean_of_mem_runs_blockLines
  refine ⟨plain_of_mem_blockLines, pending_blockLines, clean_of_mem_runs_blockLines, ?_, ?_⟩
  · rw [houtput, runs_blockLines]
    cbv
  · rw [hprinted, runs_blockLines]
    cbv

end LoxLang
