import LoxLang.Proofs.Log.Calls
import LoxLang.Proofs.Program.Listing
import LoxLang.Proofs.Repl.Script
import LoxLang.Proofs.Tree.Sexp
import Mathlib

/-! # What the exit status tells

With the path of a script and flags around it, the program treats the source in the mode that the
flags select (`Arguments.request_of_flags`). Its result is that of the treatment, as long as nothing
but syntax errors and runtime errors happens (`Program.runScript_of_text`), and nothing else can
happen: trees that were parsed can be printed, and they fail only at run time. So the status, which
is taken from the log at the end, tells what happened (`status_tells_what_happened`), whatever the
files hold and however diagnostics are highlighted. -/

namespace LoxLang

/-! ## Arguments -/

namespace Arguments

theorem ne_dashes_of_classify {argument : String} {item : Item}
    (h : classify argument = .ok item) : argument ≠ "--" := by
  rintro rfl
  have hdashes : ∃ message, classify "--" = .error message := ⟨_, by cbv⟩
  obtain ⟨message, hmessage⟩ := hdashes
  rw [hmessage] at h
  cases h

theorem items_eq_ok {arguments : List String} {is : List Item}
    (h : arguments.map classify = is.map .ok) : items arguments = .ok is := by
  induction arguments generalizing is with
  | nil =>
    obtain rfl : is = [] := by simpa using h.symm
    rfl
  | cons argument arguments ih =>
    obtain ⟨item, is, rfl, hitem, his⟩ := List.map_eq_cons_iff.mp h.symm
    rw [items, if_neg (ne_dashes_of_classify hitem.symm), ← hitem, ih his.symm]
    rfl

theorem dropDashes_of_not_mem {is : List Item} (h : .dashes ∉ is) : dropDashes is = is := by
  unfold dropDashes
  split
  · exact absurd (.head _) h
  · exact absurd (.tail _ (.head _)) h
  · rfl

/-- Without two dashes among them, the arguments are obeyed in their order. -/
theorem obeyAll_eq_foldlM {is : List Item} (h : .dashes ∉ is) :
    obeyAll is = is.foldlM Settings.obey ⟨none, false, false, []⟩ := by
  have hsuffix : (is.reverse.takeWhile (!·.isFlag)).reverse <:+ is := List.rtakeWhile_suffix _ _
  unfold obeyAll
  generalize (is.reverse.takeWhile (!·.isFlag)).reverse = tail at hsuffix ⊢
  obtain ⟨head, rfl⟩ := hsuffix
  have htake : (head ++ tail).take ((head ++ tail).length - tail.length) = head := by simp
  have hdrop := dropDashes_of_not_mem fun hmem => h (List.mem_append_right head hmem)
  simp only [htake, hdrop, ite_self, List.foldlM_append]

theorem foldlM_obey_flags {flags : List Flag} (h : .help ∉ flags) (s : Settings) :
    (flags.map .flag).foldlM Settings.obey s =
      .ok { s with
        tokens := s.tokens || decide (.tokens ∈ flags)
        tree := s.tree || decide (.tree ∈ flags) } := by
  induction flags generalizing s with
  | nil => simp [pure, Except.pure]
  | cons flag flags ih =>
    obtain ⟨hflag, hflags⟩ := List.ne_and_not_mem_of_not_mem_cons h
    rw [List.map_cons, List.foldlM_cons]
    cases flag with
    | help => exact absurd rfl hflag
    | tokens | tree => exact (ih hflags _).trans (by simp)

/-- The mode that flags select. Listing the tokens comes before showing the tree. -/
def modeOf (flags : List Flag) : Mode :=
  if .tokens ∈ flags then .listTokens else if .tree ∈ flags then .showTree else .run

/-- A script with flags before and behind it is a request to treat it in the mode that they
select. -/
theorem request_of_flags {path : String} {before behind : List String} {flags : List Flag}
    (hpath : classify path = .ok (.word path))
    (hflags : (before ++ behind).map classify = flags.map fun f => .ok (.flag f))
    (hhelp : .help ∉ flags) :
    request (before ++ path :: behind) = .script path (modeOf flags) := by
  rw [List.map_append] at hflags
  obtain ⟨front, back, rfl, hfront, hback⟩ := List.append_eq_map_iff.mp hflags
  have hhelp := not_or.mp (mt List.mem_append.mpr hhelp)
  have hitems : items (before ++ path :: behind) =
      .ok (front.map .flag ++ .word path :: back.map .flag) := by
    refine items_eq_ok ?_
    rw [List.map_append, List.map_cons, ← hfront, ← hback, hpath]
    simp [Function.comp_def]
  have hobey : obeyAll (front.map .flag ++ .word path :: back.map .flag) =
      .ok ⟨some path, decide (.tokens ∈ front ++ back), decide (.tree ∈ front ++ back), []⟩ := by
    rw [obeyAll_eq_foldlM (by simp), List.foldlM_append, foldlM_obey_flags hhelp.1]
    refine (foldlM_obey_flags hhelp.2 _).trans ?_
    simp [Settings.addWord]
  rw [request, hitems]
  simp [hobey, Settings.request, modeOf]

end Arguments

/-! ## Diagnostics -/

/-- The text that is written about reports, one after the other. -/
def reportsText (style : Text.Style) (rs : List Report) : String :=
  String.join (rs.map fun r => (Log.Effect.report r).styledText style)

namespace Diagnostic

theorem renderAll_reports (style : Text.Style) (rs : List Report) :
    renderAll style (rs.map .report) = reportsText style rs := by
  rw [renderAll, List.map_map]
  rfl

theorem render_ne_empty (style : Text.Style) (d : Diagnostic) : d.render style ≠ "" := by
  cases d <;> simp [render]

theorem renderAll_eq_empty_iff {style : Text.Style} {ds : List Diagnostic} :
    renderAll style ds = "" ↔ ds = [] := by
  cases ds with
  | nil => exact iff_of_true rfl rfl
  | cons d ds => simp [renderAll, render_ne_empty]

end Diagnostic

/-! ## Treating a source -/

namespace Log

theorem status_withReports (fatal : Bool) (rs : List Report) :
    ((empty fatal).withReports rs).status = if rs = [] then 0 else 65 := by
  cases rs <;> rfl

theorem written_withReports (fatal : Bool) (rs : List Report) :
    ((empty fatal).withReports rs).written = rs.map .report :=
  rfl

end Log

namespace Program

theorem renderAll_toNodes (ss : List Stmt) :
    renderAll (Stmt.toNodes ss) = ((Stmt.sexps ss).map Sexp.text, none) := by
  induction ss with
  | nil => rfl
  | cons s ss ih => rw [Stmt.toNodes, renderAll, s.render_toNode, ih]; rfl

theorem treat_listTokens (s : Engine) (source : String) :
    treat s .listTokens source =
      ⟨{ s with log := s.log.withReports (lexicalReports source) },
        (scan source).tokens.map Token.text, none⟩ := by
  rw [treat, Engine.scan_eq]

theorem treat_showTree (s : Engine) (source : String) :
    treat s .showTree source =
      ⟨{ s with log := s.log.withReports (syntaxReports source) },
        (Stmt.sexps (programOf source)).map Sexp.text, none⟩ := by
  rw [treat, Engine.parse_eq]
  dsimp only
  rw [renderAll_toNodes]
  rfl

theorem treat_fault_eq_none (s : Engine) (mode : Mode) (source : String) :
    (treat s mode source).fault = none := by
  cases mode with
  | run => exact s.run_fault_eq_none source false
  | listTokens => rw [treat_listTokens]
  | showTree => rw [treat_showTree]

/-- The result of a script that was read is what the treatment printed, what its log wrote, and the
status that the log tells. -/
theorem runScript_of_text (style : Text.Style) (path : String) (mode : Mode) (source : String) :
    runScript style path mode (.text source) =
      let outcome := treat (.empty true) mode source
      ⟨unlines outcome.printed, Diagnostic.renderAll style outcome.engine.log.written,
        .returned outcome.engine.log.status⟩ := by
  rw [runScript]
  dsimp only [SourceFile.source]
  rw [treat_fault_eq_none]
  rfl

theorem runScript_of_unopenable (style : Text.Style) (path : String) (mode : Mode) :
    (runScript style path mode .unopenable).finish = .exited 66 ∧
      (runScript style path mode .unopenable).stdout = "" :=
  ⟨rfl, rfl⟩

end Program

/-! ## Results -/

/-- The source has no reports, and its program fails at run time. -/
structure FailsAtRunTime (source : String) (m : Machine) (e : RuntimeError) : Prop where
  reports : syntaxReports source = []
  run : Chain.empty.run (Stmt.toNodes (programOf source)) = (m, some (.runtime e))

/-- A source has reports, or its program fails at run time, or it runs to its end. -/
theorem reports_or_fails_or_executes (source : String) :
    syntaxReports source ≠ [] ∨ (∃ m e, FailsAtRunTime source m e) ∨
      ∃ m, Executes .empty source m := by
  by_cases hreports : syntaxReports source = []
  · obtain ⟨m, hrun | ⟨e, hrun⟩⟩ := Chain.run_cases (programOf_legal source) .empty
    · exact .inr (.inr ⟨m, hreports, hrun⟩)
    · exact .inr (.inl ⟨m, e, hreports, hrun⟩)
  · exact .inl hreports

namespace FailsAtRunTime

variable {source : String} {m m' : Machine} {e e' : RuntimeError}

theorem unique (h : FailsAtRunTime source m e) (h' : FailsAtRunTime source m' e') :
    m = m' ∧ e = e' := by
  have heq := h.run.symm.trans h'.run
  cases heq
  exact ⟨rfl, rfl⟩

theorem not_executes (h : FailsAtRunTime source m e) : ¬ Executes .empty source m' := by
  intro h'
  cases h.run.symm.trans h'.run

end FailsAtRunTime

namespace Program

variable (style : Text.Style) (path : String) {source : String} {m : Machine} {e : RuntimeError}

theorem runScript_of_reports (h : syntaxReports source ≠ []) :
    runScript style path .run (.text source) =
      ⟨"", Diagnostic.renderAll style ((syntaxReports source).map .report), .returned 65⟩ := by
  have hrun := Engine.run_of_closed (s := .empty true) (.inr h) false
  rw [runScript_of_text]
  dsimp only [treat]
  rw [hrun]
  simp only [Engine.empty, Log.status_withReports, Log.written_withReports, if_neg h]
  rfl

theorem runScript_of_fails (h : FailsAtRunTime source m e) :
    runScript style path .run (.text source) =
      ⟨unlines m.printed, (Diagnostic.runtime e.message e.token.line).render style,
        .returned 70⟩ := by
  have hrun := Engine.run_of_runtime (s := .empty true) rfl h.reports false h.run
  rw [runScript_of_text]
  dsimp only [treat]
  rw [hrun]
  simp [Engine.empty, Log.empty, Log.withRuntimeErrors, Log.status, Diagnostic.renderAll,
    RuntimeError.toTokenError, exitSoftware]

theorem runScript_of_executes (h : Executes .empty source m) :
    runScript style path .run (.text source) = ⟨unlines m.printed, "", .returned 0⟩ := by
  have hrun : (Engine.empty true).run source false =
      ⟨{ Engine.empty true with scopes := m.scopes }, m.printed, none⟩ := h.run_eq rfl
  rw [runScript_of_text]
  dsimp only [treat]
  rw [hrun]
  rfl

end Program

namespace Result

open Program (unlines)

/-- The result of running a source: the status tells whether there were reports or a runtime error,
and nothing else is printed than what the program printed and the diagnostics of these. -/
structure TellsRun (r : Result) (style : Text.Style) (source : String) : Prop where
  syntax_iff : r.finish = .returned 65 ↔ syntaxReports source ≠ []
  of_reports : syntaxReports source ≠ [] →
    r.stdout = "" ∧ r.stderr = reportsText style (syntaxReports source)
  runtime_iff : r.finish = .returned 70 ↔ ∃ m e, FailsAtRunTime source m e
  of_fails : ∀ m e, FailsAtRunTime source m e → r.stdout = unlines m.printed ∧
    r.stderr = style.alarm "Runtime error" ++ ": " ++ e.message ++ "\n[line " ++
      Text.integer e.token.line ++ "]\n"
  ok_iff : r.finish = .returned 0 ↔
    syntaxReports source = [] ∧ ¬ ∃ m e, FailsAtRunTime source m e
  stdout_of_executes : ∀ m, Executes .empty source m → r.stdout = unlines m.printed
  stderr_iff : r.stderr = "" ↔ r.finish = .returned 0

/-- The result of listing the tokens of a source: nothing but the scanner has worked on it. The
tokens are listed in order, each followed by a line end; if no string is written over several lines,
then there is one line for each token. -/
structure ListsTokens (r : Result) (style : Text.Style) (source : String) : Prop where
  stdout : ∃ texts, List.Forall₂ Token.ListedAs (scan source).tokens texts ∧
    r.stdout = unlines texts
  lines : (∀ t ∈ (scan source).tokens, t.kind = .string → '\n' ∉ t.lexeme.toList) →
    r.stdout.toList.count '\n' = (scan source).tokens.length
  stderr : r.stderr = reportsText style (lexicalReports source)
  finish : r.finish = .returned (if lexicalReports source = [] then 0 else 65)

/-- The result of showing the trees of a source: nothing is executed. -/
structure ShowsTrees (r : Result) (style : Text.Style) (source : String) : Prop where
  stdout : ∃ texts, (Stmt.toNodes (programOf source)).map Node.render = texts.map .ok ∧
    r.stdout = unlines texts
  stderr : r.stderr = reportsText style (syntaxReports source)
  finish : r.finish = .returned (if syntaxReports source = [] then 0 else 65)

theorem tellsRun (style : Text.Style) (path source : String) :
    (Program.runScript style path .run (.text source)).TellsRun style source := by
  rcases reports_or_fails_or_executes source with h | ⟨m, e, h⟩ | ⟨m, h⟩
  · rw [Program.runScript_of_reports style path h]
    exact {
      syntax_iff := iff_of_true rfl h
      of_reports := fun _ => ⟨rfl, Diagnostic.renderAll_reports style _⟩
      runtime_iff := iff_of_false (by simp) fun ⟨m, e, hfails⟩ => h hfails.reports
      of_fails := fun m e hfails => absurd hfails.reports h
      ok_iff := iff_of_false (by simp) fun hok => h hok.1
      stdout_of_executes := fun m hexecutes => absurd hexecutes.reports h
      stderr_iff := iff_of_false
        (by simpa [Diagnostic.renderAll_eq_empty_iff] using h) (by simp) }
  · rw [Program.runScript_of_fails style path h]
    exact {
      syntax_iff := iff_of_false (by simp) fun hreports => hreports h.reports
      of_reports := fun hreports => absurd h.reports hreports
      runtime_iff := iff_of_true rfl ⟨m, e, h⟩
      of_fails := fun m' e' hfails => by
        obtain ⟨rfl, rfl⟩ := h.unique hfails
        exact ⟨rfl, rfl⟩
      ok_iff := iff_of_false (by simp) fun hok => hok.2 ⟨m, e, h⟩
      stdout_of_executes := fun m' hexecutes => absurd hexecutes h.not_executes
      stderr_iff := iff_of_false (Diagnostic.render_ne_empty style (.runtime ..)) (by simp) }
  · have hnot : ¬ ∃ m e, FailsAtRunTime source m e := fun ⟨_, _, hfails⟩ => hfails.not_executes h
    rw [Program.runScript_of_executes style path h]
    exact {
      syntax_iff := iff_of_false (by simp) fun hreports => hreports h.reports
      of_reports := fun hreports => absurd h.reports hreports
      runtime_iff := iff_of_false (by simp) hnot
      of_fails := fun m e hfails => absurd ⟨m, e, hfails⟩ hnot
      ok_iff := iff_of_true rfl ⟨h.reports, hnot⟩
      stdout_of_executes := fun m' hexecutes => by
        have heq := h.run.symm.trans hexecutes.run
        cases heq
        rfl
      stderr_iff := iff_of_true rfl rfl }

theorem listsTokens (style : Text.Style) (path source : String) :
    (Program.runScript style path .listTokens (.text source)).ListsTokens style source := by
  have hlisted (t : Token) (ht : t ∈ (scan source).tokens) : t.ListedAs t.text :=
    listedAs_of_mem_scan ht
  rw [Program.runScript_of_text, Program.treat_listTokens]
  refine ⟨⟨_, ?_, rfl⟩, fun hstrings => ?_, Diagnostic.renderAll_reports style _,
    congrArg Finish.returned (Log.status_withReports true _)⟩
  · rw [List.forall₂_map_right_iff, List.forall₂_same]
    exact hlisted
  · have hlines : ∀ text ∈ (scan source).tokens.map Token.text, '\n' ∉ text.toList := by
      rw [List.forall_mem_map]
      intro t ht hmem
      obtain ⟨hkind, hlexeme⟩ := (hlisted t ht).oneLine hmem
      exact hstrings t ht hkind hlexeme
    rw [← List.length_map Token.text]
    exact Program.count_newline_unlines hlines

theorem showsTrees (style : Text.Style) (path source : String) :
    (Program.runScript style path .showTree (.text source)).ShowsTrees style source := by
  rw [Program.runScript_of_text, Program.treat_showTree]
  exact ⟨⟨_, Stmt.map_render_toNodes _, rfl⟩, Diagnostic.renderAll_reports style _,
    congrArg Finish.returned (Log.status_withReports true _)⟩

end Result

/-- The exit status tells what happened to a script that is given with flags before or behind it,
whatever reading its path gives and however diagnostics are highlighted. If the path leads to a
source, then without flags the source is run; with the flag for tokens they are listed, whether the
flag for trees is there or not; and with only that flag the trees are shown. If the path cannot be
opened, then the program is ended with a status of its own. Programs may be nested to any depth: no
limit of recursion is part of this. -/
theorem status_tells_what_happened (style : Text.Style) (read : String → SourceFile)
    (input : String) {path : String} (hpath : Arguments.classify path = .ok (.word path))
    {before behind : List String} {flags : List Flag}
    (hflags : (before ++ behind).map Arguments.classify = flags.map fun f => .ok (.flag f))
    (hhelp : .help ∉ flags) :
    let result := Program.run style read (before ++ path :: behind) input
    (∀ source, read path = .text source →
      (flags = [] → result.TellsRun style source) ∧
      (.tokens ∈ flags → result.ListsTokens style source) ∧
      (.tree ∈ flags → .tokens ∉ flags → result.ShowsTrees style source)) ∧
    (read path = .unopenable → result.finish = .exited 66 ∧ result.stdout = "") := by
  intro result
  have hresult : result =
      Program.runScript style path (Arguments.modeOf flags) (read path) := by
    change Program.run _ _ _ _ = _
    rw [Program.run, Arguments.request_of_flags hpath hflags hhelp]
  rw [hresult]
  refine ⟨fun source hread => ?_, fun hread => ?_⟩
  · rw [hread]
    refine ⟨fun h => ?_, fun h => ?_, fun h hnot => ?_⟩
    · rw [h]
      exact Result.tellsRun style path source
    · rw [Arguments.modeOf, if_pos h]
      exact Result.listsTokens style path source
    · rw [Arguments.modeOf, if_neg hnot, if_pos h]
      exact Result.showsTrees style path source
  · rw [hread]
    exact Program.runScript_of_unopenable style path _

/-- An undefined variable in a file outside of the working directory. It ends a run with 70 and one
diagnostic, but its tokens are listed with 0 on three lines, also with the other flag; and a file
that is not there ends the program with 66. -/
theorem status_of_undefined_variable :
    let read (path : String) : SourceFile := if path = "/lox/t" then .text "a;" else .unopenable
    let run := Program.run .plain read ["/lox/t"] ""
    let listing := Program.run .plain read ["--ast", "/lox/t", "--tokens"] ""
    (run.finish = .returned 70 ∧ run.stdout = "" ∧
      run.stderr = "Runtime error: Undefined variable 'a'.\n[line 1]\n") ∧
    (listing.finish = .returned 0 ∧ listing.stdout.toList.count '\n' = 3) ∧
    (Program.run .plain read ["../u"] "").finish = .exited 66 := by
  intro read run listing
  have hread : read "/lox/t" = .text "a;" := rfl
  have hfails : FailsAtRunTime "a;" ⟨.empty, []⟩
      ⟨.undefinedVariable, ⟨.identifier, "a", .nil, 1⟩⟩ := ⟨by cbv, by cbv⟩
  have htokens : (scan "a;").tokens =
      [⟨.identifier, "a", .nil, 1⟩, ⟨.semicolon, ";", .nil, 1⟩, .endAt 1] := by cbv
  have hlexical : lexicalReports "a;" = [] := by cbv
  have hrun := (@status_tells_what_happened .plain read "" "/lox/t" (by cbv) [] [] [] rfl
    List.not_mem_nil).1 "a;" hread
  have hlisting := (@status_tells_what_happened .plain read "" "/lox/t" (by cbv) ["--ast"]
    ["--tokens"] [.tree, .tokens] (by cbv) (by decide)).1 "a;" hread
  have hmissing := (@status_tells_what_happened .plain read "" "../u" (by cbv) [] [] [] rfl
    List.not_mem_nil).2 (by cbv)
  have htells := hrun.1 rfl
  have hlists := hlisting.2.1 (by decide)
  refine ⟨⟨htells.runtime_iff.mpr ⟨_, _, hfails⟩, (htells.of_fails _ _ hfails).1, ?_⟩,
    ⟨?_, ?_⟩, hmissing.1⟩
  · exact (htells.of_fails _ _ hfails).2.trans (by decide +kernel)
  · exact hlists.finish.trans (by rw [hlexical]; rfl)
  · exact (hlists.lines (by rw [htokens]; decide)).trans (by rw [htokens]; rfl)

/-- It is not so that there is always one line for each token: a string that is written over two
lines is listed with its line end twice, in the lexeme and in the literal. -/
theorem not_one_line_per_token :
    ¬ ∀ (style : Text.Style) (read : String → SourceFile) (path source input : String),
      Arguments.classify path = .ok (.word path) → read path = .text source →
      (Program.run style read ["--tokens", path] input).stdout.toList.count '\n' =
        (scan source).tokens.length := by
  intro h
  have hlines := h .plain (fun _ => .text "\"a\nb\"") "t" "\"a\nb\"" "" (by cbv) rfl
  have htokens : (scan "\"a\nb\"").tokens.length = 2 := by cbv
  have hstdout : (Program.run .plain (fun _ => .text "\"a\nb\"") ["--tokens", "t"] "").stdout =
      "STRING \"a\nb\" a\nb\nEOF\n" := by cbv
  rw [htokens, hstdout] at hlines
  cases hlines

end LoxLang
