import LoxLang.Proofs.Engine.History
import LoxLang.Proofs.Lexical.Join
import LoxLang.Proofs.Recovery.Clause
import Mathlib

/-! # What errors are blamed on

A run blames its errors on tokens of the source that it runs, whatever happened in the engine
before (`diagnostics_point_at_scanned_tokens`). Syntax errors are about tokens that the parser was
given, and the end mark among them is the one that the scanner put at the end. A runtime error is
one that an expression has at its own token (`Chain.run_failsWith`), and the expressions of the
program have their tokens from the source. -/

namespace LoxLang

/-! ## Syntax errors -/

theorem Token.place_eq_at_end_iff (t : Token) : t.place = " at end" ↔ t.kind = .eof := by
  unfold Token.place
  split
  · next h => exact iff_of_true rfl h
  · next h =>
    refine iff_of_false (fun hplace => ?_) h
    have hchars := congrArg String.toList hplace
    simp at hchars

/-- The end mark that the parser ends at is the last of the scanned tokens. -/
theorem endMark_scan_mem (source : String) :
    endMark (scan source).tokens ∈ (scan source).tokens := by
  obtain ⟨ts, last, htokens, hts⟩ := exists_scan_tokens_eq source
  rw [htokens, endMark_append hts]
  exact List.mem_append_right ts (.head _)

theorem getLast?_scan_eq_iff {source : String} {t : Token} (ht : t ∈ (scan source).tokens) :
    (scan source).tokens.getLast? = some t ↔ t.kind = .eof := by
  obtain ⟨ts, last, htokens, hts⟩ := exists_scan_tokens_eq source
  rw [htokens] at ht ⊢
  rw [List.getLast?_concat, Option.some.injEq]
  rcases List.mem_append.mp ht with ht | ht
  · exact iff_of_false (fun h => hts t ht (h ▸ rfl)) (hts t ht)
  · cases List.mem_singleton.mp ht
    exact iff_of_true rfl rfl

theorem token_mem_of_mem_errors {source : String} :
    ∀ f ∈ (parse (scan source).tokens).errors, f.token ∈ (scan source).tokens := by
  intro f hf
  rcases (parse_drawn (scan source).tokens).token f hf with hmem | heq
  · exact (List.takeWhile_sublist _).mem hmem
  · exact heq ▸ endMark_scan_mem source

/-! ## Runtime errors -/

/-- The runtime error is about one of the tokens and fits it: it is one that can happen at a token
of its kind in the program. -/
structure TokenError.Fits (tokens : List Token) (program : List Stmt) (e : TokenError) : Prop where
  token_mem : e.token ∈ tokens
  kind_mem : e.kind ∈ [.typeMismatch, .divisionByZero, .undefinedVariable]
  undefined : e.kind = .undefinedVariable →
    e.token.kind = .identifier ∧ e.message = "Undefined variable '" ++ e.token.lexeme ++ "'."
  divided : e.kind = .divisionByZero → e.token.kind = .slash
  mismatched : e.kind = .typeMismatch → e.token.kind ∈
    [.minus, .plus, .star, .slash, .greater, .greaterEqual, .less, .lessEqual]
  /-- A minus in front of its operand, not between two. -/
  negated : e.message = "Operand must be a number." → e.token.kind = .minus ∧
    ∃ expr ∈ Stmt.exprsAll program, ∃ right, .unary e.token right ∈ expr.subtrees
  added : e.message = "Operands must be two numbers or two strings." → e.token.kind = .plus

theorem Expr.FailsWith.token?_eq {e : Expr} {r : RuntimeError} (h : e.FailsWith (.runtime r)) :
    e.token? = some r.token := by
  cases h <;> rfl

/-- The messages tell the causes apart, also where a name is part of one. -/
theorem RuntimeError.cause_eq_of_message_eq {r r' : RuntimeError} (h : r.message = r'.message) :
    r.cause = r'.cause := by
  obtain ⟨cause, token⟩ := r
  obtain ⟨cause', token'⟩ := r'
  have hchars := congrArg String.toList h
  cases cause <;> cases cause' <;> simp [message] at hchars ⊢

theorem Expr.FailsWith.fits {program : List Stmt} {tokens : List Token} {e sub : Expr}
    {r : RuntimeError} (he : e ∈ Stmt.exprsAll program) (hsub : sub ∈ e.subtrees)
    (htoken : r.token ∈ tokens) (h : sub.FailsWith (.runtime r)) :
    r.toTokenError.Fits tokens program where
  token_mem := htoken
  kind_mem := r.cause.kind_mem
  undefined := by
    intro hkind
    cases h with
    | assign _ hname | «variable» hname => exact ⟨hname, rfl⟩
    | unary | add | numeric | divide => cases hkind
  divided := by
    intro hkind
    cases h with
    | divide _ _ hop => exact hop
    | assign | «variable» | unary | add | numeric => cases hkind
  mismatched := by
    intro hkind
    cases h with
    | unary _ hop | add _ _ hop => simp [RuntimeError.toTokenError, hop]
    | numeric _ _ hop => exact (by decide : numericOperators ⊆ _) hop
    | assign | «variable» | divide => cases hkind
  negated := by
    intro hmessage
    have hcause := @RuntimeError.cause_eq_of_message_eq r ⟨.operandNotNumber, r.token⟩ hmessage
    cases h with
    | unary right hop => exact ⟨hop, e, he, right, hsub⟩
    | assign | «variable» | add | numeric | divide => cases hcause
  added := by
    intro hmessage
    have hcause := @RuntimeError.cause_eq_of_message_eq r ⟨.operandsNotAddable, r.token⟩ hmessage
    cases h with
    | add _ _ hop => exact hop
    | assign | «variable» | unary | numeric | divide => cases hcause

theorem Engine.exprsAll_echoed (ss : List Stmt) :
    Stmt.exprsAll (echoed ss) = Stmt.exprsAll ss := by
  unfold echoed
  split <;> rfl

theorem exprsAll_runnable (source : String) (echo : Bool) :
    Stmt.exprsAll (runnable source echo) = Stmt.exprsAll (programOf source) := by
  unfold runnable
  split
  · exact Engine.exprsAll_echoed _
  · rfl

/-- The names and operators in a program are tokens of its source. -/
theorem token?_mem_of_programOf {source : String} {e : Expr}
    (he : e ∈ Stmt.exprsAll (programOf source)) :
    ∀ sub ∈ e.subtrees, ∀ t ∈ sub.token?, t ∈ (scan source).tokens := by
  intro sub hsub t ht
  obtain ⟨us, es, hus, hphrase⟩ := (parse_drawn (scan source).tokens).standsIn e he
  exact (List.takeWhile_sublist _).mem (hus.mem (hphrase.token?_mem sub hsub t ht))

theorem run_fits (source : String) (echo : Bool) (scopes : Chain) :
    ∀ f ∈ (scopes.run (Stmt.toNodes (runnable source echo))).2, ∀ e ∈ f.runtimeError?,
      e.Fits (scan source).tokens (programOf source) := by
  intro f hf
  obtain ⟨e, he, sub, hsub, hfails⟩ := Chain.run_failsWith (runnable_legal source echo) scopes f hf
  rw [exprsAll_runnable] at he
  obtain ⟨r, rfl⟩ := hfails.isRuntime
  rintro _ ⟨⟩
  exact hfails.fits he hsub (token?_mem_of_programOf he sub hsub r.token hfails.token?_eq)

namespace Engine

/-- The source that a step runs. -/
def Step.source? : Step → Option String
  | run source _ => some source
  | runFile path file => (file.source path).toOption
  | scan _ | parse _ | reset => none

theorem perform_eq_run {step : Step} {source : String} (h : step.source? = some source)
    (s : Engine) : ∃ echo, s.perform step = s.run source echo := by
  cases step with
  | run source' echo =>
    cases h
    exact ⟨echo, rfl⟩
  | runFile path file =>
    rw [perform, runFile]
    rw [Step.source?] at h
    cases hsource : file.source path with
    | ok source' =>
      rw [hsource] at h
      cases h
      exact ⟨false, rfl⟩
    | error fault =>
      rw [hsource] at h
      cases h
  | scan | parse | reset => cases h

theorem runtimeErrors_run (s : Engine) (source : String) (echo : Bool) :
    ∃ error? : Option TokenError,
      (s.run source echo).engine.log.runtimeErrors = s.log.runtimeErrors ++ error?.toList ∧
      ∀ e ∈ error?, e.Fits (LoxLang.scan source).tokens (programOf source) := by
  by_cases h : s.log.hadError = true ∨ syntaxReports source ≠ []
  · refine ⟨none, ?_, fun e he => nomatch he⟩
    rw [run_of_closed h]
    exact (List.append_nil _).symm
  · obtain ⟨hs, hsource⟩ := not_or.mp h
    rw [run_of_open (eq_false_of_ne_true hs) (Decidable.not_not.mp hsource), interpret_eq]
    refine ⟨_, rfl, fun e he => ?_⟩
    obtain ⟨f, hf, he⟩ := Option.mem_bind_iff.mp he
    exact run_fits source echo s.scopes f hf e he

end Engine

/-- Running a source, in any engine, blames the errors on tokens that were scanned from it. Its
syntax errors have the lines and places of such tokens, and are at the end only for the end mark. At
most one runtime error is added, and it fits its token. -/
theorem diagnostics_point_at_scanned_tokens (s : Engine) (step : Engine.Step) (source : String)
    (h : step.source? = some source) :
    let tokens := (scan source).tokens
    let errors := (parse tokens).errors
    let log := (s.perform step).engine.log
    log.reports = s.log.reports ++ lexicalReports source ++ errors.map ParseError.report ∧
    (∀ r ∈ errors.map ParseError.report, ∃ t ∈ tokens, r.line = t.line ∧ r.place = t.place ∧
      (r.place = " at end" ↔ tokens.getLast? = some t)) ∧
    ∃ error? : Option TokenError, log.runtimeErrors = s.log.runtimeErrors ++ error?.toList ∧
      ∀ e ∈ error?, e.Fits tokens (programOf source) := by
  intro tokens errors log
  obtain ⟨echo, hrun⟩ : ∃ echo, s.perform step = s.run source echo := Engine.perform_eq_run h s
  have hlog : log = (s.run source echo).engine.log := by rw [← hrun]
  rw [hlog]
  refine ⟨?_, fun r hr => ?_, Engine.runtimeErrors_run s source echo⟩
  · rw [Engine.reports_run, List.append_assoc]
    rfl
  · obtain ⟨f, hf, rfl⟩ := List.mem_map.mp hr
    have hmem := token_mem_of_mem_errors f hf
    refine ⟨f.token, hmem, rfl, rfl, ?_⟩
    exact f.token.place_eq_at_end_iff.trans (getLast?_scan_eq_iff hmem).symm

theorem negation_blamed_in_second_run :
    let s := (Engine.empty false).after [.run "var a = \"-\";" false]
    let source := "print\n-a;"
    let minus : Token := ⟨.minus, "-", .nil, 2⟩
    (Engine.Step.run source true).source? = some source ∧
    (s.run source true).engine.log.runtimeErrors =
      [⟨.typeMismatch, minus, "Operand must be a number."⟩] ∧
    minus ∈ (scan source).tokens ∧
    ∃ expr ∈ Stmt.exprsAll (programOf source), ∃ right, .unary minus right ∈ expr.subtrees := by
  have hbefore : ((Engine.empty false).after
      [.run "var a = \"-\";" false]).log.runtimeErrors = [] := by cbv
  have hafter : (((Engine.empty false).after [.run "var a = \"-\";" false]).run
      "print\n-a;" true).engine.log.runtimeErrors =
      [⟨.typeMismatch, ⟨.minus, "-", .nil, 2⟩, "Operand must be a number."⟩] := by cbv
  intro s source minus
  obtain ⟨-, -, error?, hadded, hfits⟩ :=
    diagnostics_point_at_scanned_tokens s (.run source true) source rfl
  rw [hbefore, List.nil_append] at hadded
  have hfit := hfits _ (Option.toList_eq_singleton_iff.mp (hadded.symm.trans hafter))
  exact ⟨rfl, hafter, hfit.token_mem, (hfit.negated rfl).2⟩

end LoxLang
