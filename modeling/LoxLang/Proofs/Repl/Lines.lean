import LoxLang.Proofs.Engine.Record
import LoxLang.Repl.Basic

/-! # Lines of the interactive loop

What a line does to a loop, as equations. A line that is no command (`Plain`) is put behind the
pending ones; if they leave a block open together, they are kept back, and else they are run, with a
clean log behind the run (`Repl.step_cases`). -/

namespace LoxLang

/-- The line is source text as it stands: there are no blanks around it, and it does not begin like
a command. -/
structure Plain (line : String) : Prop where
  stripped : Text.strip line.toList = line.toList
  head : line.toList.head? ≠ some '?'
  word : String.ofList (line.toList.takeWhile Command.isWordChar) ∉ ["help", "exit", "EOF"]

theorem Plain.ofLine_eq {line : String} (h : Plain line) :
    Command.ofLine line = if line = "" then .blank else .source line := by
  have hword := h.word
  simp only [List.mem_cons, List.not_mem_nil, or_false, not_or] at hword
  unfold Command.ofLine
  rw [h.stripped]
  split
  · next hnil => rw [if_pos (String.toList_eq_nil_iff.mp hnil)]
  · next rest hmark => exact absurd (by rw [hmark]; rfl) h.head
  · next hne _ =>
    rw [if_neg (fun hempty => hne (String.toList_eq_nil_iff.mpr hempty)), String.ofList_toList]
    dsimp only
    rw [if_neg hword.1, if_neg hword.2.1, if_neg hword.2.2]

namespace Repl

/-- The pending lines with a text behind them, if they leave no block open. -/
def closed? (r : Repl) (text : String) : Option String :=
  if isBlockOpen (r.pending ++ text) then none else some (r.pending ++ text)

/-- The source that a line makes the loop run, if it does. -/
def source? (r : Repl) (line : String) : Option String :=
  match Command.ofLine line with
  | .blank => if r.pending.isEmpty then none else r.closed? ""
  | .source text => r.closed? text
  | .help | .exit | .endOfInput => none

/-- A loop over the engine, in which nothing was typed. -/
def ofEngine (s : Engine) : Repl := { empty with engine := s }

/-- The loop after lines. -/
def after (r : Repl) (lines : List String) : Repl :=
  lines.foldl (fun r line => (r.step line).repl) r

/-- What is shown while lines are taken. -/
def output (r : Repl) : List String → List Output
  | [] => []
  | line :: rest => (r.step line).output ++ (r.step line).repl.output rest

/-- The answer to a text that leaves a block open. -/
def kept (r : Repl) (text : String) : Answer :=
  ⟨{ r with pending := r.pending ++ text ++ "\n", prompt := .secondary }, false, []⟩

/-- The answer to a source that is run. The log is clean behind it. -/
def ran (r : Repl) (source : String) : Answer :=
  let o := r.engine.run source true
  ⟨⟨o.engine.reset, "", .primary⟩, false, [.program o.text]⟩

theorem submit_eq (r : Repl) (text : String) :
    r.submit text = (r.closed? text).elim (r.kept text) r.ran := by
  unfold submit closed?
  dsimp only
  split
  · rfl
  · rw [Engine.run_fault_eq_none]
    rfl

/-- What a line does that is no command: nothing, if it is blank and outside of a block; or it is
kept back; or it is run behind the pending lines. -/
theorem step_cases {line : String} (h : Plain line) (r : Repl) :
    (line = "" ∧ r.pending = "" ∧ r.source? line = none ∧ r.step line = ⟨r, false, []⟩) ∨
    (r.source? line = none ∧ r.step line = r.kept line) ∨
    (r.source? line = some (r.pending ++ line) ∧ r.step line = r.ran (r.pending ++ line)) := by
  have hsubmit : (r.closed? line = none ∧ r.submit line = r.kept line) ∨
      (r.closed? line = some (r.pending ++ line) ∧ r.submit line = r.ran (r.pending ++ line)) := by
    rw [submit_eq, closed?]
    split
    · exact .inl ⟨rfl, rfl⟩
    · exact .inr ⟨rfl, rfl⟩
  unfold source? step
  rw [h.ofLine_eq]
  by_cases hline : line = ""
  · subst hline
    by_cases hpending : r.pending = ""
    · exact .inl (by simp [hpending])
    · exact .inr (by simpa [hpending] using hsubmit)
  · exact .inr (by simpa [hline] using hsubmit)

end Repl
end LoxLang
