import LoxLang.Proofs.Engine.Join
import LoxLang.Proofs.Grammar.Braces
import LoxLang.Proofs.Lexical.FirstLines
import LoxLang.Proofs.Repl.Lines

/-! # Blocks typed over several lines

A source without reports leaves no brace open (`isBlockOpen_of_reports_eq_nil`), so that the loop
never keeps a complete program back. The first lines of a block, without the line of its closing
brace, always do (`TypedBlock.isBlockOpen`): their tokens are the first tokens of the block, with
the opening brace and without the closing one. So the lines of a block are kept back up to the last
one, and then the block is run as a whole (`block_runs_once`). -/

namespace LoxLang

/-! ## Open blocks -/

theorem isBlockOpen_iff_openBraces (source : String) :
    isBlockOpen source = true ↔ 0 < openBraces (scan source).tokens := by
  rw [isBlockOpen, openBraces, decide_eq_true_iff]
  omega

theorem openBraces_endAt (ts : List Token) (last : Int) :
    openBraces (ts ++ [Token.endAt last]) = openBraces ts := by
  rw [openBraces_append]
  exact Int.add_zero _

/-- A program without errors leaves no block open. -/
theorem isBlockOpen_of_reports_eq_nil {source : String} (h : syntaxReports source = []) :
    isBlockOpen source = false := by
  obtain ⟨ts, last, hts, heof⟩ := exists_scan_tokens_eq source
  have hbalanced := (derives_programOf h hts heof).nested.balanced
  rw [← Bool.not_eq_true, isBlockOpen_iff_openBraces, hts, openBraces_endAt, hbalanced.closed]
  exact Int.lt_irrefl 0

/-! ## The lines of a block -/

/-- The tokens of a single block are declarations between braces. -/
theorem DerivesDeclarations.exists_braces {ts : List Token} {ss : List Stmt}
    (h : DerivesDeclarations ts [.block ss]) :
    ∃ left us right, ts = left :: us ++ [right] ∧ left.kind = .leftBrace ∧ Balanced us := by
  cases h with
  | cons hblock hnil =>
    cases hnil
    cases hblock with
    | statement hblock =>
      cases hblock with
      | @block left right us _ hleft hus hright =>
        exact ⟨left, us, right, List.append_nil _, hleft, hus.nested.balanced⟩

/-- Lines that are no commands, and together are a single block without reports, where the opening
brace stands on the first line and the closing one on the last. -/
structure TypedBlock (lines : List String) : Prop where
  two_le_length : 2 ≤ lines.length
  plain : ∀ line ∈ lines, Plain line
  newline_not_mem : ∀ line ∈ lines, '\n' ∉ line.toList
  reports : syntaxReports (String.intercalate "\n" lines) = []
  program : ∃ ss, programOf (String.intercalate "\n" lines) = [.block ss]
  /-- The first token is on the first line. -/
  opening : (scan (String.intercalate "\n" lines)).tokens.head?.map Token.line = some 1
  /-- The last token in front of the end mark is on the last line. -/
  closing : (scan (String.intercalate "\n" lines)).tokens.dropLast.getLast?.map Token.line =
    some (lines.length : Int)

theorem lineCount_intercalate {lines : List String} (hne : lines ≠ [])
    (h : ∀ line ∈ lines, '\n' ∉ line.toList) :
    lineCount (String.intercalate "\n" lines) = lines.length := by
  induction lines with
  | nil => exact absurd rfl hne
  | cons line lines ih =>
    obtain ⟨hline, hlines⟩ := List.forall_mem_cons.mp h
    have hcount : line.toList.count '\n' = 0 := List.count_eq_zero.mpr hline
    by_cases hnil : lines = []
    · subst hnil
      simp [lineCount, hcount]
    · have hrest := ih hnil hlines
      rw [lineCount] at hrest ⊢
      rw [String.intercalate_cons_of_ne_nil hnil]
      simp only [String.toList_append, List.count_append, hcount, List.length_cons]
      have hnewline : "\n".toList.count '\n' = 1 := rfl
      omega

/-- The first tokens of a block, with the opening brace and without the closing one, leave a brace
open. -/
theorem openBraces_pos_of_first {left right last : Token} {us first others : List Token}
    (hleft : left.kind = .leftBrace) (hus : Balanced us)
    (h : left :: us ++ [right] ++ [last] = first ++ others) (hne : first ≠ [])
    (hright : right ∉ first) : 0 < openBraces first := by
  cases first with
  | nil => exact absurd rfl hne
  | cons t first =>
    obtain ⟨rfl, htail⟩ := List.cons.inj h
    have hfirst : first <+: us ++ right :: [last] := ⟨others, by simpa using htail.symm⟩
    have hnot : right ∉ first := fun hmem => hright (List.mem_cons_of_mem left hmem)
    exact hus.openBraces_pos hleft (prefix_of_prefix_append_cons hnot hfirst)

/-- Without its last lines, a block is open. -/
theorem TypedBlock.isBlockOpen {front rest : List String} (h : TypedBlock (front ++ rest))
    (hfront : front ≠ []) (hrest : rest ≠ []) :
    isBlockOpen (String.intercalate "\n" front) = true := by
  obtain ⟨ss, hprogram⟩ := h.program
  obtain ⟨ts, last, hts, heof⟩ := exists_scan_tokens_eq (String.intercalate "\n" (front ++ rest))
  have hderives := derives_programOf h.reports hts heof
  rw [hprogram] at hderives
  obtain ⟨left, us, right, rfl, hleft, hus⟩ := hderives.exists_braces
  have hopening : left.line = 1 := by simpa [hts] using h.opening
  have hclosing : right.line = (front ++ rest).length := by
    have hclosing := h.closing
    rw [hts, List.dropLast_concat, List.getLast?_concat] at hclosing
    simpa using hclosing
  -- The first lines have the first tokens of the block.
  obtain ⟨first, mark, others, hfirst, hwhole, hlines, hnext⟩ :=
    scan_first_lines (String.intercalate "\n" front) (String.intercalate "\n" rest)
  rw [← String.intercalate_append_of_ne_nil hfront hrest, hts] at hwhole
  rw [lineCount_intercalate hfront fun line hline =>
    h.newline_not_mem line (List.mem_append_left rest hline)] at hlines hnext
  have hlength := List.length_pos_iff.mpr hfront
  have hlength' := List.length_pos_iff.mpr hrest
  rw [isBlockOpen_iff_openBraces, hfirst, openBraces_endAt]
  refine openBraces_pos_of_first hleft hus hwhole ?_ ?_
  · -- The opening brace is on the first line, and no string.
    rintro rfl
    rcases hnext left (by rw [← List.nil_append others, ← hwhole]; rfl) with hstring | hline
    · rw [hleft] at hstring
      cases hstring
    · omega
  · -- The closing brace is on a line that is missing.
    intro hmem
    have hbound := hlines right hmem
    rw [hclosing, List.length_append] at hbound
    omega

/-! ## Lines that are kept back -/

namespace Repl

variable {r : Repl} {line : String} {lines : List String}

/-- Only a blank line outside of a block is dropped. -/
theorem step_eq_submit (hline : Plain line) (hne : r.pending ++ line ≠ "") :
    r.step line = r.submit line := by
  rw [step, hline.ofLine_eq]
  by_cases hempty : line = ""
  · subst hempty
    have hpending : r.pending ≠ "" := by simpa using hne
    simp [hpending]
  · rw [if_neg hempty]

theorem step_of_open (hline : Plain line) (hopen : isBlockOpen (r.pending ++ line) = true) :
    r.step line = r.kept line := by
  have hempty : isBlockOpen "" = false := by cbv
  have hne : r.pending ++ line ≠ "" := by
    intro h
    rw [h, hempty] at hopen
    cases hopen
  rw [step_eq_submit hline hne, submit_eq, closed?, if_pos hopen]
  rfl

theorem step_of_closed (hline : Plain line) (hne : r.pending ≠ "")
    (hclosed : isBlockOpen (r.pending ++ line) = false) :
    r.step line = r.ran (r.pending ++ line) := by
  have hne : r.pending ++ line ≠ "" := by simp [hne]
  rw [step_eq_submit hline hne, submit_eq, closed?, hclosed]
  rfl

theorem after_concat (r : Repl) (lines : List String) (line : String) :
    r.after (lines ++ [line]) = ((r.after lines).step line).repl :=
  List.foldl_concat ..

theorem output_concat (r : Repl) (lines : List String) (line : String) :
    r.output (lines ++ [line]) = r.output lines ++ ((r.after lines).step line).output := by
  induction lines generalizing r with
  | nil => exact List.append_nil _
  | cons first lines ih =>
    rw [List.cons_append, output, output, ih, List.append_assoc]
    rfl

/-- Lines each of which leaves a block open, with all before it, are kept back. -/
theorem after_of_open (hplain : ∀ line ∈ lines, Plain line) (hne : lines ≠ [])
    (hopen : ∀ front, front <+: lines → front ≠ [] →
      isBlockOpen (r.pending ++ String.intercalate "\n" front) = true) :
    r.after lines =
        { r with
          pending := r.pending ++ String.intercalate "\n" lines ++ "\n"
          prompt := .secondary } ∧
      r.output lines = [] := by
  induction lines generalizing r with
  | nil => exact absurd rfl hne
  | cons line lines ih =>
    obtain ⟨hline, hplain⟩ := List.forall_mem_cons.mp hplain
    have hfirst := hopen [line] ⟨lines, rfl⟩ (List.cons_ne_nil _ _)
    rw [String.intercalate_singleton] at hfirst
    have hstep := step_of_open hline hfirst
    have hafter : r.after (line :: lines) = (r.kept line).repl.after lines := by
      rw [← hstep]
      rfl
    have houtput : r.output (line :: lines) = (r.kept line).repl.output lines := by
      rw [output, hstep]
      rfl
    rw [hafter, houtput]
    by_cases hnil : lines = []
    · subst hnil
      rw [String.intercalate_singleton]
      exact ⟨rfl, rfl⟩
    · have hrest : ∀ front, front <+: lines → front ≠ [] →
          isBlockOpen ((r.kept line).repl.pending ++ String.intercalate "\n" front) = true := by
        intro front hfront hfrontne
        have h := hopen (line :: front) (List.cons_prefix_cons.mpr ⟨rfl, hfront⟩)
          (List.cons_ne_nil _ _)
        rw [String.intercalate_cons_of_ne_nil hfrontne] at h
        simpa only [kept, String.append_assoc] using h
      obtain ⟨hkept, hquiet⟩ := ih hplain hnil hrest
      refine ⟨?_, hquiet⟩
      rw [hkept, String.intercalate_cons_of_ne_nil hnil]
      simp only [kept, String.append_assoc]

/-- The first lines of a block are kept back. -/
theorem after_first_lines {front rest : List String} (hpending : r.pending = "")
    (h : TypedBlock (front ++ rest)) (hfront : front ≠ []) (hrest : rest ≠ []) :
    r.after front =
        { r with pending := String.intercalate "\n" front ++ "\n", prompt := .secondary } ∧
      r.output front = [] := by
  have hplain : ∀ line ∈ front, Plain line := fun line hline =>
    h.plain line (List.mem_append_left rest hline)
  have hkept := after_of_open (r := r) hplain hfront ?_
  · rwa [hpending, String.empty_append] at hkept
  · rintro first ⟨more, rfl⟩ hfirst
    rw [hpending, String.empty_append]
    rw [List.append_assoc] at h
    exact h.isBlockOpen hfirst (List.append_ne_nil_of_right_ne_nil more hrest)

end Repl

/-- The loop never keeps a program back that has no errors. And the lines of a block, typed into a
loop in which nothing is pending: as long as the last line is missing, they are pending, nothing is
shown, and the engine is as it was; with the last line nothing is pending any more, and the output,
what was written about errors and the scopes are those of a run of the whole block. -/
theorem block_runs_once :
    (∀ source, syntaxReports source = [] → isBlockOpen source = false) ∧
    ∀ (r : Repl) (lines : List String), r.pending = "" → TypedBlock lines →
      (∀ k, 0 < k → k < lines.length →
        (r.after (lines.take k)).pending ≠ "" ∧
        (r.after (lines.take k)).prompt = .secondary ∧
        (r.after (lines.take k)).engine = r.engine ∧ r.output (lines.take k) = []) ∧
      let o := r.engine.run (String.intercalate "\n" lines) true
      (r.after lines).pending = "" ∧ (r.after lines).prompt = .primary ∧
      r.output lines = [.program o.text] ∧
      (r.after lines).engine.log.written = o.engine.log.written ∧
      (r.after lines).engine.scopes = o.engine.scopes := by
  refine ⟨fun _ => isBlockOpen_of_reports_eq_nil, fun r lines hpending h => ⟨?_, ?_⟩⟩
  · intro k hpos hlt
    rw [← List.take_append_drop k lines] at h
    have hfront : lines.take k ≠ [] := by
      rw [← List.length_pos_iff, List.length_take]
      omega
    have hrest : lines.drop k ≠ [] := by
      rw [← List.length_pos_iff, List.length_drop]
      omega
    obtain ⟨hafter, houtput⟩ := Repl.after_first_lines hpending h hfront hrest
    rw [hafter]
    exact ⟨by simp, rfl, rfl, houtput⟩
  · have hlength := h.two_le_length
    rcases List.eq_nil_or_concat' lines with rfl | ⟨front, last, rfl⟩
    · cases hlength
    have hfront : front ≠ [] := by
      rintro rfl
      exact absurd hlength (Nat.not_succ_le_self 1)
    obtain ⟨hafter, houtput⟩ :=
      Repl.after_first_lines hpending h hfront (List.cons_ne_nil last [])
    have hsource : String.intercalate "\n" (front ++ [last]) =
        String.intercalate "\n" front ++ "\n" ++ last := by
      rw [String.intercalate_append_of_ne_nil hfront (List.cons_ne_nil last []),
        String.intercalate_singleton]
    have hclosed := isBlockOpen_of_reports_eq_nil h.reports
    have hlast := h.plain last (List.mem_append_right front List.mem_cons_self)
    have hstep : (r.after front).step last =
        (r.after front).ran (String.intercalate "\n" (front ++ [last])) := by
      rw [hsource] at hclosed ⊢
      rw [hafter]
      exact Repl.step_of_closed hlast (by simp) hclosed
    dsimp only
    rw [Repl.after_concat, Repl.output_concat, hstep, houtput, hafter]
    exact ⟨rfl, rfl, rfl, rfl, rfl⟩

/-- A block with a comment, a blank line, a string and a block comment over two lines each, in which
there are braces. -/
def bracedLines : List String :=
  ["\x7b // \x7d", "", "print \"\x7d", "\x7b\";", "/* \x7d", "*/ \x7d"]

theorem typedBlock_bracedLines : TypedBlock bracedLines where
  two_le_length := by decide
  plain := by
    simp only [bracedLines, List.forall_mem_cons]
    refine ⟨⟨?_, ?_, ?_⟩, ⟨?_, ?_, ?_⟩, ⟨?_, ?_, ?_⟩, ⟨?_, ?_, ?_⟩, ⟨?_, ?_, ?_⟩, ⟨?_, ?_, ?_⟩,
      nofun⟩
    all_goals decide
  newline_not_mem := by decide
  reports := by cbv
  program := ⟨[.print (.literal (.string "\x7d\n\x7b"))], by cbv⟩
  opening := by cbv
  closing := by cbv

theorem bracedLines_run_once :
    Repl.empty.pending = "" ∧ TypedBlock bracedLines ∧
    (Repl.empty.after (bracedLines.take 5)).prompt = .secondary ∧
    Repl.empty.output (bracedLines.take 5) = [] ∧
    Repl.empty.output bracedLines = [.program "\x7d\n\x7b\n"] := by
  obtain ⟨hbefore, -, -, houtput, -⟩ :=
    block_runs_once.2 Repl.empty bracedLines rfl typedBlock_bracedLines
  obtain ⟨-, hprompt, -, hquiet⟩ := hbefore 5 (by decide) (by decide)
  refine ⟨rfl, typedBlock_bracedLines, hprompt, hquiet, ?_⟩
  rw [houtput]
  cbv

end LoxLang
