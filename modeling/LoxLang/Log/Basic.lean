import LoxLang.Log.Diagnostic

/-! # The error log

The log records the syntax errors and the runtime errors since its last reset, and writes a
diagnostic for each of them and for every fault that reaches it from a guarded region. What was
written stays written over a reset. A fatal log ends the process after a fault that reached it. -/

namespace LoxLang

/-- The record of what went wrong. -/
structure Log where
  fatal : Bool
  hadError : Bool
  hadRuntimeError : Bool
  reports : List Report
  runtimeErrors : List TokenError
  /-- The diagnostics written so far, in order. -/
  written : List Diagnostic
  deriving DecidableEq

namespace Log

/-- A log in which nothing is recorded. -/
def empty (fatal : Bool) : Log := ⟨fatal, false, false, [], [], []⟩

/-- How a call on the log ends. -/
inductive Ending where
  | returned
  /-- The fault goes on to the caller. -/
  | raised (fault : Fault)
  /-- The fault given to the call lacks what the call needs; nothing happened. -/
  | unsuitable
  deriving DecidableEq

def write (log : Log) (d : Diagnostic) : Log := { log with written := log.written ++ [d] }

def syntaxError (log : Log) (r : Report) : Log :=
  { log.write (.report r) with reports := log.reports ++ [r], hadError := true }

def runtimeError (log : Log) (e : TokenError) : Log :=
  { log.write (.runtime e.message e.token.line) with
    runtimeErrors := log.runtimeErrors ++ [e], hadRuntimeError := true }

def reset (log : Log) : Log :=
  { log with hadError := false, hadRuntimeError := false, reports := [], runtimeErrors := [] }

/-- Records errors in a program's text; other errors are not recorded. -/
def reportAll (log : Log) (errors : List Error) : Log :=
  (errors.filterMap Error.report?).foldl syntaxError log

/-- Prints an error, and ends the process if the log is fatal. -/
def throw (log : Log) (e : Error) : Log × Ending :=
  let n := e.notice
  (log.write (.notice n.message n.internal),
    if log.fatal then .raised (.exit (.code n.exitCode)) else .returned)

/-- What the log is asked to do. -/
inductive Call where
  | report (fault : Fault)
  | syntaxError (r : Report)
  | runtimeError (fault : Fault)
  | reset
  | throw (fault : Fault)
  /-- Leaves a guarded region, by a fault or without one. -/
  | leave (fault : Option Fault)
  | setFatal (fatal : Bool)

/-- Leaves a guarded region by a fault. Errors, interrupts and too deep recursion end here; a
failure of the system is printed but goes on; the end of the process passes silently. -/
def leaveBy (log : Log) (fault : Fault) : Log × Ending :=
  match fault with
  | .error e => log.throw e
  | .interrupt => log.throw (.general "keyboard interrupt" false exitSoftware)
  | .recursionLimit => log.throw (.general "maximum recursion depth exceeded" false exitSoftware)
  | .exit _ => (log, .raised fault)
  | .system className text =>
    let message := "unknown error: '" ++ className ++ ": " ++ text ++ "'"
    match log.throw (.general message true exitSoftware) with
    | (log, .returned) => (log, .raised fault)
    | ended => ended

def call (log : Log) : Call → Log × Ending
  | .report (.error e) =>
    match e.report? with
    | some r => (log.syntaxError r, .returned)
    | none => (log, .unsuitable)
  | .runtimeError (.error (.located e)) => (log.runtimeError e, .returned)
  | .throw (.error e) => log.throw e
  | .report _ | .runtimeError _ | .throw _ => (log, .unsuitable)
  | .syntaxError r => (log.syntaxError r, .returned)
  | .reset => (log.reset, .returned)
  | .leave none => (log, .returned)
  | .leave (some fault) => log.leaveBy fault
  | .setFatal fatal => ({ log with fatal }, .returned)

end Log
end LoxLang
