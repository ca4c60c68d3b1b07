import LoxLang.Proofs.Lexical.Join
import LoxLang.Proofs.Machine.Frame
import LoxLang.Proofs.Repl.Lines
import Mathlib.Data.List.DropRight

/-! # The state of the interactive loop

Whatever is typed, the state of a loop stays consistent (`Repl.Consistent`): the prompt tells
whether lines are pending, pending lines are those that leave a block open, the log is clean, and
the engine is at its global scope. A line leaves the state alone, or is kept back, or leads to a run
(`Repl.step_forms`), and all three keep the state consistent; the line end that is put behind
pending lines opens and closes no block (`isBlockOpen_newline`). -/

namespace LoxLang

/-! ## Commands -/

namespace Text

theorem strip_eq (cs : List Char) : strip cs = (cs.dropWhile isBlank).rdropWhile isBlank :=
  rfl

theorem isBlank_of_strip_eq_nil {cs : List Char} (h : strip cs = []) :
    ∀ c ∈ cs, isBlank c = true := by
  intro c hc
  rw [← List.takeWhile_append_dropWhile (p := isBlank) (l := cs)] at hc
  rcases List.mem_append.mp hc with hc | hc
  · exact List.mem_takeWhile_imp hc
  · exact List.rdropWhile_eq_nil_iff.mp h c hc

/-- A stripped text does not end with a blank, and neither does what follows its first part. -/
theorem isBlank_getLast {cs front rest : List Char} (hcs : strip cs = front ++ rest)
    (hne : rest ≠ []) : isBlank (rest.getLast hne) = false := by
  rw [strip_eq] at hcs
  have hlast := List.rdropWhile_last_not isBlank (cs.dropWhile isBlank) (by simp [hcs, hne])
  simp only [hcs, List.getLast_append_of_ne_nil _ hne] at hlast
  simpa using hlast

/-- What follows the first part of a stripped text is not blank, unless it is nothing. -/
theorem eq_nil_of_strip_eq_nil {cs front rest : List Char} (hcs : strip cs = front ++ rest)
    (hrest : strip rest = []) : rest = [] := by
  by_contra hne
  have hblank := isBlank_of_strip_eq_nil hrest (rest.getLast hne) (List.getLast_mem hne)
  rw [isBlank_getLast hcs hne] at hblank
  cases hblank

end Text

/-- The line without the blanks around it. -/
def stripped (line : String) : String := String.ofList (Text.strip line.toList)

namespace Command

variable {line : String}

/-- A line begins with a word and nothing follows it if and only if the stripped line is the
word. -/
theorem word_iff {word : String} (hword : word.toList.all isWordChar = true) :
    String.ofList ((Text.strip line.toList).takeWhile isWordChar) = word ∧
      Text.strip ((Text.strip line.toList).dropWhile isWordChar) = [] ↔ stripped line = word := by
  rw [stripped]
  constructor
  · rintro ⟨hfront, hrest⟩
    have hsplit := List.takeWhile_append_dropWhile (p := isWordChar) (l := Text.strip line.toList)
    have hnil := Text.eq_nil_of_strip_eq_nil hsplit.symm hrest
    rw [hnil, List.append_nil] at hsplit
    rw [← hfront, hsplit]
  · intro hline
    have htext : Text.strip line.toList = word.toList := by rw [← hline, String.toList_ofList]
    rw [List.all_eq_true] at hword
    rw [htext, List.takeWhile_eq_self_iff.mpr hword, List.dropWhile_eq_nil_iff.mpr hword]
    exact ⟨String.ofList_toList, rfl⟩

theorem ofWord_eq_iff {command command' : Command} {word : String} {argument : List Char}
    (h : ∀ text, command' ≠ source text) :
    ofWord command word argument = command' ↔ argument = [] ∧ command = command' := by
  unfold ofWord
  split
  · next hnil => simp [List.isEmpty_iff.mp hnil]
  · next hne =>
    have hne : argument ≠ [] := by simpa using hne
    simp [hne, (h _).symm]

/-- The commands by their words; a question mark asks for help, too. -/
theorem ofLine_eq_iff (line : String) :
    (ofLine line = .help ↔ stripped line = "help" ∨ stripped line = "?") ∧
    (ofLine line = .exit ↔ stripped line = "exit") ∧
    (ofLine line = .endOfInput ↔ stripped line = "EOF") := by
  have hhelp := @word_iff line "help" rfl
  have hexit := @word_iff line "exit" rfl
  have hend := @word_iff line "EOF" rfl
  have hmark : stripped line = "?" ↔ Text.strip line.toList = ['?'] := by
    rw [stripped, ← String.toList_inj, String.toList_ofList]
    rfl
  rw [← hhelp, ← hexit, ← hend, hmark, ofLine]
  split
  · next hnil => simp [hnil]
  · next rest hrest =>
    have hsplit : Text.strip line.toList = ['?'] ++ rest := hrest
    have hnil : Text.strip rest = [] ↔ rest = [] :=
      ⟨Text.eq_nil_of_strip_eq_nil hsplit, fun h => by rw [h]; rfl⟩
    have hword : ('?' :: rest).takeWhile isWordChar = [] := rfl
    simp [hrest, hword, hnil, ofWord_eq_iff]
  · next hne hnot =>
    have hmark : Text.strip line.toList ≠ ['?'] := hnot []
    dsimp only
    split_ifs <;> simp_all [ofWord_eq_iff]

end Command

/-! ## One line -/

theorem isBlockOpen_newline (source : String) : isBlockOpen (source ++ "\n") = isBlockOpen source := by
  rw [isBlockOpen, isBlockOpen, map_kind_scan_newline]

theorem Engine.atGlobals_run {s : Engine} (h : s.scopes.atGlobals = true) (source : String)
    (echo : Bool) : (s.run source echo).engine.scopes.atGlobals = true := by
  by_cases hclosed : s.log.hadError = true ∨ syntaxReports source ≠ []
  · rw [run_of_closed hclosed]
    exact h
  · obtain ⟨hopen, hsource⟩ : s.log.hadError = false ∧ syntaxReports source = [] := by
      simpa using hclosed
    have hlength := s.length_locals_interpret (Stmt.toNodes (runnable source echo))
    simp only [Chain.atGlobals, List.isEmpty_iff] at h ⊢
    rw [run_of_open hopen hsource, ← List.length_eq_zero_iff, hlength, h, List.length_nil]

namespace Repl

/-- What a line can do: it leaves the state alone, without output of a program; or the pending lines
with a text behind them leave a block open, and are kept back; or a source is run. -/
theorem step_forms (r : Repl) (line : String) :
    (∃ stop output, r.step line = ⟨r, stop, output⟩ ∧ ∀ o ∈ output, o.programText = "") ∨
    (∃ text, isBlockOpen (r.pending ++ text) = true ∧ r.step line = r.kept text) ∨
    ∃ source, r.step line = r.ran source := by
  have hsubmit : ∀ text, (isBlockOpen (r.pending ++ text) = true ∧ r.submit text = r.kept text) ∨
      r.submit text = r.ran (r.pending ++ text) := by
    intro text
    rw [submit_eq, closed?]
    split
    · next h => exact .inl ⟨h, rfl⟩
    · exact .inr rfl
  unfold step
  split
  · split
    · exact .inl ⟨_, _, rfl, List.forall_mem_nil _⟩
    · exact .inr ((hsubmit "").imp (fun h => ⟨_, h⟩) fun h => ⟨_, h⟩)
  · exact .inl ⟨_, _, rfl, by simp [Output.programText]⟩
  · exact .inl ⟨_, _, rfl, List.forall_mem_nil _⟩
  · exact .inl ⟨_, _, rfl, by simp [Output.programText]⟩
  · next text _ => exact .inr ((hsubmit text).imp (fun h => ⟨_, h⟩) fun h => ⟨_, h⟩)

/-- The prompt tells whether lines are pending, and these leave a block open; the log is clean, and
the engine is at its global scope. -/
structure Consistent (r : Repl) : Prop where
  prompt : r.prompt = .secondary ↔ r.pending ≠ ""
  pending : r.pending ≠ "" ↔
    ((scan r.pending).tokens.map Token.kind).count .rightBrace <
      ((scan r.pending).tokens.map Token.kind).count .leftBrace
  hadError : r.engine.log.hadError = false
  hadRuntimeError : r.engine.log.hadRuntimeError = false
  reports : r.engine.log.reports = []
  runtimeErrors : r.engine.log.runtimeErrors = []
  atGlobals : r.engine.scopes.atGlobals = true

/-- What comes of a line. -/
structure Takes (r : Repl) (line : String) (answer : Answer) : Prop where
  /-- While a block is open, no program prints anything, and nothing changes in the engine. -/
  withholds : answer.repl.pending ≠ "" →
    (∀ o ∈ answer.output, o.programText = "") ∧ answer.repl.engine = r.engine
  stop : answer.stop = true ↔ stripped line = "exit" ∨ stripped line = "EOF"
  /-- A command leaves the state alone. -/
  command : stripped line ∈ ["help", "?", "exit", "EOF"] → answer.repl = r

theorem isBlockOpen_iff (source : String) :
    isBlockOpen source = true ↔
      ((scan source).tokens.map Token.kind).count .rightBrace <
        ((scan source).tokens.map Token.kind).count .leftBrace := by
  rw [isBlockOpen, decide_eq_true_iff]

/-- Behind a run, and before anything is typed, nothing is pending. -/
theorem consistent_of_reset {s : Engine} (h : s.scopes.atGlobals = true) :
    Consistent ⟨s.reset, "", .primary⟩ := by
  have hopen : isBlockOpen "" = false := by cbv
  refine ⟨by simp, ?_, rfl, rfl, rfl, rfl, h⟩
  rw [← isBlockOpen_iff, hopen]
  simp

variable {r : Repl}

theorem Consistent.kept (h : r.Consistent) {text : String}
    (hopen : isBlockOpen (r.pending ++ text) = true) : (r.kept text).repl.Consistent := by
  refine ⟨by simp [Repl.kept], ?_, h.hadError, h.hadRuntimeError, h.reports, h.runtimeErrors,
    h.atGlobals⟩
  rw [← isBlockOpen_iff, Repl.kept, isBlockOpen_newline]
  simp [hopen]

theorem Consistent.ran (h : r.Consistent) (source : String) : (r.ran source).repl.Consistent :=
  consistent_of_reset (Engine.atGlobals_run h.atGlobals source true)

theorem Consistent.step (h : r.Consistent) (line : String) : (r.step line).repl.Consistent := by
  rcases r.step_forms line with ⟨stop, output, hstep, -⟩ | ⟨text, hopen, hstep⟩ | ⟨source, hstep⟩
  · rw [hstep]
    exact h
  · rw [hstep]
    exact h.kept hopen
  · rw [hstep]
    exact h.ran source

theorem Consistent.after (h : r.Consistent) (lines : List String) : (r.after lines).Consistent := by
  induction lines generalizing r with
  | nil => exact h
  | cons line lines ih => exact ih (h.step line)

theorem stop_step (r : Repl) (line : String) :
    (r.step line).stop = true ↔ stripped line = "exit" ∨ stripped line = "EOF" := by
  obtain ⟨-, hexit, hend⟩ := Command.ofLine_eq_iff line
  have hsubmit : ∀ text, (r.submit text).stop = false := by
    intro text
    rw [submit_eq]
    cases r.closed? text <;> rfl
  rw [← hexit, ← hend, Repl.step]
  split <;> simp_all
  split <;> simp_all

theorem repl_step_of_command {line : String} (h : stripped line ∈ ["help", "?", "exit", "EOF"]) :
    (r.step line).repl = r := by
  obtain ⟨hhelp, hexit, hend⟩ := Command.ofLine_eq_iff line
  have hcommand : Command.ofLine line ∈ [.help, .exit, .endOfInput] := by
    simp only [List.mem_cons, List.not_mem_nil, or_false] at h ⊢
    rw [hhelp, hexit, hend, or_assoc]
    exact h
  rw [Repl.step]
  split <;> simp_all

theorem takes_step (r : Repl) (line : String) : r.Takes line (r.step line) where
  withholds hpending := by
    rcases r.step_forms line with ⟨stop, output, hstep, hout⟩ | ⟨text, -, hstep⟩ | ⟨source, hstep⟩
    · rw [hstep]
      exact ⟨hout, rfl⟩
    · rw [hstep]
      exact ⟨List.forall_mem_nil _, rfl⟩
    · rw [hstep] at hpending
      exact absurd rfl hpending
  stop := r.stop_step line
  command := repl_step_of_command

/-- After whatever lines, the prompt is the secondary one if and only if lines are pending, and lines
are pending if and only if they have more opening than closing braces; nothing is left in the log,
and the engine is at its global scope. A line that leaves a block open prints nothing from a program
and changes nothing in the engine; exactly `exit` and `EOF` ask the loop to stop; and these two and
a call for help leave the state alone. -/
theorem consistent_after_lines (lines : List String) :
    (empty.after lines).Consistent ∧
    ∀ line, (empty.after lines).Takes line ((empty.after lines).step line) := by
  have hglobals : (Engine.empty false).scopes.atGlobals = true := rfl
  have hempty : empty.Consistent := consistent_of_reset hglobals
  exact ⟨hempty.after lines, (empty.after lines).takes_step⟩

end Repl
end LoxLang
