import LoxLang.Proofs.Engine.History

/-! # The log under any use

Every call on a log comes down to one of a few effects, which depend on the fault that the call is
given and not on the log (`Call.effect`). A call does what its effect says (`call_eq`), and so the
log after any calls can be told from their effects: the record from those since the last reset
(`records_after`), and what was written from all of them (`written_after`), as data and as the text
that each effect prescribes (`renderAll_after`). -/

namespace LoxLang
namespace Log

open Engine (Records)

/-! ## Effects -/

/-- What a call on a log comes down to. -/
inductive Effect where
  | report (r : Report)
  | runtimeError (e : TokenError)
  /-- An error is shown. Where that does not end the process with the exit code, the fault `further`
  goes on, if there is one. -/
  | notice (message : String) (internal : Bool) (exitCode : Int) (further : Option Fault)
  /-- The fault goes on as it came. -/
  | pass (fault : Fault)
  | reset
  | setFatal (fatal : Bool)
  | nothing
  /-- The fault lacks what the call reads off it. -/
  | unsuitable

namespace Effect

/-- The report that is recorded. -/
def report? : Effect → Option Report
  | report r => some r
  | _ => none

/-- The runtime error that is recorded. -/
def runtimeError? : Effect → Option TokenError
  | runtimeError e => some e
  | _ => none

/-- The diagnostic that is written. -/
def diagnostic? : Effect → Option Diagnostic
  | report r => some (.report r)
  | runtimeError e => some (.runtime e.message e.token.line)
  | notice message internal _ _ => some (.notice message internal)
  | _ => none

/-- The text that is written where nothing is highlighted. -/
def text : Effect → String
  | report r => "[line " ++ Text.integer r.line ++ "] Error" ++ r.place ++ ": " ++ r.message ++ "\n"
  | runtimeError e =>
    "Runtime error: " ++ e.message ++ "\n[line " ++ Text.integer e.token.line ++ "]\n"
  | notice message internal _ _ =>
    (if internal then "[internal] error: " else "error: ") ++ message ++ "\n"
  | pass _ | reset | setFatal _ | nothing | unsuitable => ""

/-- The text that is written in a style: the line and the labels are highlighted. -/
def styledText (style : Text.Style) : Effect → String
  | report r =>
    style.bold ("[line " ++ Text.integer r.line ++ "]") ++ " " ++ style.alarm "Error" ++ r.place ++
      ": " ++ r.message ++ "\n"
  | runtimeError e =>
    style.alarm "Runtime error" ++ ": " ++ e.message ++ "\n[line " ++
      Text.integer e.token.line ++ "]\n"
  | notice message internal _ _ =>
    (if internal then style.alarm "[internal] " else "") ++ style.alarm "error: " ++ message ++ "\n"
  | pass _ | reset | setFatal _ | nothing | unsuitable => ""

def fatal? : Effect → Option Bool
  | setFatal fatal => some fatal
  | _ => none

def isReset : Effect → Bool
  | reset => true
  | _ => false

/-- The log that the effect leaves. -/
def on (log : Log) : Effect → Log
  | report r => log.syntaxError r
  | runtimeError e => log.runtimeError e
  | notice message internal _ _ => log.write (.notice message internal)
  | reset => log.reset
  | setFatal fatal => { log with fatal }
  | pass _ | nothing | unsuitable => log

/-- How the call ends on a log that is fatal, or on one that is not. -/
def ending (fatal : Bool) : Effect → Ending
  | notice _ _ exitCode further =>
    if fatal then .raised (.exit (.code exitCode)) else further.elim .returned .raised
  | pass fault => .raised fault
  | unsuitable => .unsuitable
  | report _ | runtimeError _ | reset | setFatal _ | nothing => .returned

/-- An error is shown with its message. Errors in a program's text have an exit code of their own,
and only an error that says so is internal. -/
def ofError : Error → Effect
  | .general message internal exitCode => .notice message internal exitCode none
  | .lexical _ message => .notice message false 65 none
  | .located ⟨.syntactic, _, message⟩ => .notice message false 65 none
  | .located ⟨_, _, message⟩ => .notice message false 70 none

theorem ofError_eq (e : Error) :
    ofError e = .notice e.notice.message e.notice.internal e.notice.exitCode none := by
  cases e with
  | general | lexical => rfl
  | located e =>
    obtain ⟨kind, token, message⟩ := e
    cases kind <;> rfl

end Effect

/-- What the call comes down to. A report needs an error with a line of its own or a syntax error
with a token, a runtime error needs a token, and only errors can be thrown; a guarded region can be
left by any fault. -/
def Call.effect : Call → Effect
  | .syntaxError r => .report r
  | .report (.error (.lexical line message)) => .report ⟨line, "", message⟩
  | .report (.error (.located ⟨.syntactic, token, message⟩)) =>
    .report ⟨token.line, if token.kind = .eof then " at end" else " at '" ++ token.lexeme ++ "'",
      message⟩
  | .runtimeError (.error (.located e)) => .runtimeError e
  | .throw (.error e) => .ofError e
  | .report _ | .runtimeError _ | .throw _ => .unsuitable
  | .reset => .reset
  | .leave none => .nothing
  | .leave (some (.error e)) => .ofError e
  | .leave (some .interrupt) => .notice "keyboard interrupt" false 70 none
  | .leave (some .recursionLimit) => .notice "maximum recursion depth exceeded" false 70 none
  | .leave (some (.system className text)) =>
    .notice ("unknown error: '" ++ className ++ ": " ++ text ++ "'") true 70
      (some (.system className text))
  | .leave (some (.exit status)) => .pass (.exit status)
  | .setFatal fatal => .setFatal fatal

/-- An error that is thrown is shown, and nothing goes on unless it ends the process. -/
theorem throw_eq (log : Log) (e : Error) :
    log.throw e = ((Effect.ofError e).on log, (Effect.ofError e).ending log.fatal) := by
  rw [Effect.ofError_eq]
  rfl

theorem leaveBy_eq (log : Log) (fault : Fault) :
    log.leaveBy fault =
      ((Call.leave (some fault)).effect.on log,
        (Call.leave (some fault)).effect.ending log.fatal) := by
  cases fault with
  | error e => exact throw_eq log e
  | interrupt | recursionLimit | exit => rfl
  | system className text =>
    unfold leaveBy
    dsimp only
    rw [throw_eq]
    cases hfatal : log.fatal with
    | true | false => rfl

/-- A call does what its effect says, whatever the log. -/
theorem call_eq (log : Log) (c : Call) :
    log.call c = (c.effect.on log, c.effect.ending log.fatal) := by
  cases c with
  | syntaxError | reset | setFatal => rfl
  | report fault =>
    cases fault with
    | system | interrupt | recursionLimit | exit => rfl
    | error e =>
      cases e with
      | general | lexical => rfl
      | located e =>
        obtain ⟨kind, token, message⟩ := e
        cases kind <;> rfl
  | runtimeError fault =>
    cases fault with
    | system | interrupt | recursionLimit | exit => rfl
    | error e => cases e <;> rfl
  | throw fault =>
    cases fault with
    | system | interrupt | recursionLimit | exit => rfl
    | error e => exact throw_eq log e
  | leave fault? =>
    cases fault? with
    | none => rfl
    | some fault => exact leaveBy_eq log fault

/-! ## One call -/

theorem Effect.eq_unsuitable_of_ending {fatal : Bool} {effect : Effect}
    (h : effect.ending fatal = .unsuitable) : effect = .unsuitable := by
  cases effect with
  | unsuitable => rfl
  | notice _ _ _ further =>
    rw [ending] at h
    split at h
    · cases h
    · cases further <;> cases h
  | report | runtimeError | pass | reset | setFatal | nothing => cases h

/-- A call that lacks what it needs does nothing. -/
theorem call_of_unsuitable {log : Log} {c : Call} (h : (log.call c).2 = .unsuitable) :
    (log.call c).1 = log := by
  rw [call_eq] at h ⊢
  have heffect := Effect.eq_unsuitable_of_ending h
  rw [heffect]
  rfl

/-- The two logs hold the same record. -/
structure SameRecord (log log' : Log) : Prop where
  hadError : log'.hadError = log.hadError
  hadRuntimeError : log'.hadRuntimeError = log.hadRuntimeError
  reports : log'.reports = log.reports
  runtimeErrors : log'.runtimeErrors = log.runtimeErrors

theorem SameRecord.refl (log : Log) : SameRecord log log := ⟨rfl, rfl, rfl, rfl⟩

theorem SameRecord.write (log : Log) (d : Diagnostic) : SameRecord log (log.write d) :=
  ⟨rfl, rfl, rfl, rfl⟩

theorem sameRecord_throw (log : Log) (fault : Fault) :
    SameRecord log (log.call (.throw fault)).1 := by
  rw [call_eq]
  cases fault with
  | error e =>
    rw [Call.effect, Effect.ofError_eq]
    exact .write log _
  | system | interrupt | recursionLimit | exit => exact .refl log

theorem sameRecord_leave (log : Log) (fault? : Option Fault) :
    SameRecord log (log.call (.leave fault?)).1 := by
  rw [call_eq]
  cases fault? with
  | none => exact .refl log
  | some fault =>
    cases fault with
    | error e =>
      rw [Call.effect, Effect.ofError_eq]
      exact .write log _
    | system | interrupt | recursionLimit => exact .write log _
    | exit => exact .refl log

theorem written_on (log : Log) (effect : Effect) :
    (effect.on log).written = log.written ++ effect.diagnostic?.toList := by
  cases effect with
  | report | runtimeError | notice => rfl
  | pass | reset | setFatal | nothing | unsuitable => exact (List.append_nil log.written).symm

/-- An effect adds the text that it prescribes. -/
theorem renderAll_on (style : Text.Style) (log : Log) (effect : Effect) :
    Diagnostic.renderAll style (effect.on log).written =
      Diagnostic.renderAll style log.written ++ effect.styledText style := by
  rw [written_on, Diagnostic.renderAll, List.map_append, String.join_append]
  refine congrArg (Diagnostic.renderAll style log.written ++ ·) ?_
  cases effect with
  | report | runtimeError | notice =>
    rw [Effect.diagnostic?, Option.toList_some, List.map_singleton, String.join_cons,
      String.join_nil, String.append_empty]
    rfl
  | pass | reset | setFatal | nothing | unsuitable => rfl

theorem Effect.styledText_of_isPlain {style : Text.Style} (h : style.IsPlain) (effect : Effect) :
    effect.styledText style = effect.text := by
  unfold styledText text
  cases effect with
  | report r =>
    have hlabel : "] Error" = "]" ++ (" " ++ "Error") := rfl
    dsimp only
    rw [h.bold_eq, h.alarm_eq, hlabel]
    simp only [String.append_assoc]
  | runtimeError e =>
    have hlabel : "Runtime error: " = "Runtime error" ++ ": " := rfl
    dsimp only
    rw [h.alarm_eq, hlabel]
  | notice message internal =>
    have hlabel : "[internal] error: " = "[internal] " ++ "error: " := rfl
    dsimp only
    rw [h.alarm_eq, h.alarm_eq, hlabel]
    cases internal with
    | true => rfl
    | false => exact congrArg (· ++ message ++ "\n") String.empty_append
  | pass | reset | setFatal | nothing | unsuitable => rfl

theorem fatal_on (log : Log) (effect : Effect) :
    (effect.on log).fatal = effect.fatal?.getD log.fatal := by
  cases effect <;> rfl

/-- What an effect other than a reset adds to the record. -/
theorem records_on {log : Log} {rs : List Report} {es : List TokenError} (h : Records log rs es)
    {effect : Effect} (heffect : effect.isReset = false) :
    Records (effect.on log) (rs ++ effect.report?.toList)
      (es ++ effect.runtimeError?.toList) := by
  cases effect with
  | reset => cases heffect
  | report r =>
    simpa [Effect.on, syntaxError_eq, Effect.report?, Effect.runtimeError?] using h.withReports [r]
  | runtimeError e =>
    simpa [Effect.on, runtimeError_eq, Effect.report?, Effect.runtimeError?] using
      h.withRuntimeErrors [e]
  | notice | pass | setFatal | nothing | unsuitable =>
    simp only [Effect.report?, Effect.runtimeError?, Option.toList_none, List.append_nil]
    exact ⟨h.reports, h.runtimeErrors, h.hadError, h.hadRuntimeError⟩

/-! ## Calls one after the other -/

/-- The log after calls, however they end. -/
def after (log : Log) (calls : List Call) : Log :=
  calls.foldl (fun log c => (log.call c).1) log

/-- The calls behind the last reset. -/
def Call.sinceReset (calls : List Call) : List Call := calls.rtakeWhile (!·.effect.isReset)

theorem filterMap_concat {α β : Type} (f : α → Option β) (as : List α) (a : α) :
    (as ++ [a]).filterMap f = as.filterMap f ++ (f a).toList := by
  rw [List.filterMap_append, List.filterMap_eq_flatMap_toList f [a], List.flatMap_singleton]

theorem after_concat (log : Log) (calls : List Call) (c : Call) :
    log.after (calls ++ [c]) = c.effect.on (log.after calls) := by
  rw [after, List.foldl_concat, call_eq]
  rfl

/-- What is written stays written over a reset. -/
theorem written_after (log : Log) (calls : List Call) :
    (log.after calls).written = log.written ++ calls.filterMap (·.effect.diagnostic?) := by
  induction calls using List.reverseRecOn with
  | nil => exact (List.append_nil _).symm
  | append_singleton calls c ih =>
    rw [after_concat, written_on, ih, filterMap_concat, List.append_assoc]

/-- The text of the effects of calls is added to what is written, one after the other. -/
theorem renderAll_after (style : Text.Style) (log : Log) (calls : List Call) :
    Diagnostic.renderAll style (log.after calls).written =
      Diagnostic.renderAll style log.written ++
        String.join (calls.map (·.effect.styledText style)) := by
  induction calls using List.reverseRecOn with
  | nil => exact String.append_empty.symm
  | append_singleton calls c ih =>
    rw [after_concat, renderAll_on, ih, List.map_append, List.map_singleton, String.join_append,
      String.join_cons, String.join_nil, String.append_empty, String.append_assoc]

theorem fatal_after (log : Log) (calls : List Call) :
    (log.after calls).fatal = (calls.filterMap (·.effect.fatal?)).getLast?.getD log.fatal := by
  induction calls using List.reverseRecOn with
  | nil => rfl
  | append_singleton calls c ih =>
    rw [after_concat, fatal_on, ih, filterMap_concat]
    cases c.effect.fatal? <;> simp

/-- The record is that of the calls since the last reset. -/
theorem records_after (fatal : Bool) (calls : List Call) :
    Records ((empty fatal).after calls)
      ((Call.sinceReset calls).filterMap (·.effect.report?))
      ((Call.sinceReset calls).filterMap (·.effect.runtimeError?)) := by
  induction calls using List.reverseRecOn with
  | nil => exact ⟨rfl, rfl, ⟨nofun, nofun⟩, ⟨nofun, nofun⟩⟩
  | append_singleton calls c ih =>
    rw [after_concat]
    cases hc : c.effect.isReset with
    | true =>
      have hsince : Call.sinceReset (calls ++ [c]) = [] :=
        List.rtakeWhile_concat_neg _ _ _ (by simp [hc])
      rw [hsince]
      cases heffect : c.effect with
      | reset => exact .reset _
      | report | runtimeError | notice | pass | setFatal | nothing | unsuitable =>
        rw [heffect] at hc
        cases hc
    | false =>
      have hsince : Call.sinceReset (calls ++ [c]) = Call.sinceReset calls ++ [c] :=
        List.rtakeWhile_concat_pos _ _ _ (by simp [hc])
      rw [hsince, filterMap_concat, filterMap_concat]
      exact records_on ih hc

/-- After any calls, however they ended, the record holds the reports and the runtime errors of the
calls since the last reset, in order, and the flags say whether there are any; what is written are
the diagnostics of all calls, one after the other, each with the text that `Effect.styledText` gives
in a style, and with the text that `Effect.text` gives where nothing is highlighted. A call that
lacks what it needs changes nothing, and neither an error that is thrown nor leaving a guarded
region changes the record. How a call ends depends on nothing but the call and on whether the log is
fatal. -/
theorem record_is_exact (fatal : Bool) (calls : List Call) :
    let log := (empty fatal).after calls
    let since := Call.sinceReset calls
    Records log (since.filterMap (·.effect.report?)) (since.filterMap (·.effect.runtimeError?)) ∧
    log.written = calls.filterMap (·.effect.diagnostic?) ∧
    (∀ style, Diagnostic.renderAll style log.written =
      String.join (calls.map (·.effect.styledText style))) ∧
    (∀ style : Text.Style, style.IsPlain → Diagnostic.renderAll style log.written =
      String.join (calls.map (·.effect.text))) ∧
    log.fatal = (calls.filterMap (·.effect.fatal?)).getLast?.getD fatal ∧
    (∀ c, (log.call c).2 = c.effect.ending log.fatal) ∧
    (∀ c, (log.call c).2 = .unsuitable → (log.call c).1 = log) ∧
    (∀ fault, SameRecord log (log.call (.throw fault)).1) ∧
    ∀ fault?, SameRecord log (log.call (.leave fault?)).1 := by
  intro log since
  have hstyled (style : Text.Style) : Diagnostic.renderAll style log.written =
      String.join (calls.map (·.effect.styledText style)) :=
    (renderAll_after style (empty fatal) calls).trans String.empty_append
  refine ⟨records_after fatal calls, written_after (empty fatal) calls, hstyled,
    fun style hstyle => ?_, fatal_after (empty fatal) calls,
    fun c => congrArg Prod.snd (call_eq log c), fun c => call_of_unsuitable,
    sameRecord_throw log, sameRecord_leave log⟩
  rw [hstyled]
  exact congrArg String.join
    (List.map_congr_left fun c _ => Effect.styledText_of_isPlain hstyle c.effect)

/-- A report at the end of a program, one of an error that has no line, a runtime error, a reset, a
report, an internal error that is thrown, and three ways to leave a guarded region. -/
theorem record_of_nine_calls :
    let calls : List Call :=
      [.report (.error (.located ⟨.syntactic, .endAt 3, "Expect expression."⟩)),
       .report (.error (.general "no line" false 70)),
       .runtimeError
        (.error (.located ⟨.divisionByZero, ⟨.slash, "/", .nil, 2⟩, "Division by zero."⟩)),
       .reset,
       .syntaxError ⟨4, " at 'x'", "Invalid assignment target."⟩,
       .throw (.error (.general "gone" true 70)),
       .leave (some (.system "ValueError" "boom")), .leave (some (.exit .none)), .leave none]
    let log := (empty false).after calls
    log.reports = [⟨4, " at 'x'", "Invalid assignment target."⟩] ∧ log.runtimeErrors = [] ∧
    Diagnostic.renderAll .plain log.written =
      "[line 3] Error at end: Expect expression.\n" ++
      "Runtime error: Division by zero.\n[line 2]\n" ++
      "[line 4] Error at 'x': Invalid assignment target.\n" ++
      "[internal] error: gone\n" ++
      "[internal] error: unknown error: 'ValueError: boom'\n" ∧
    (log.call (.leave (some (.system "ValueError" "boom")))).2 =
      .raised (.system "ValueError" "boom") := by
  intro calls log
  obtain ⟨hrecords, -, -, htext, -, hending, -⟩ := record_is_exact false calls
  refine ⟨hrecords.reports, hrecords.runtimeErrors, ?_, hending _⟩
  rw [htext .plain Text.Style.isPlain_plain]
  decide +kernel

end Log
end LoxLang
