import LoxLang.Log.Fault
import LoxLang.Text.Style

/-! # Diagnostics

What is written about faults, as data and as text. The labels and the line of a syntax error are
highlighted in the given style. -/

namespace LoxLang

/-- A message to the user. -/
inductive Diagnostic where
  | report (r : Report)
  /-- An error at run time, with its line. -/
  | runtime (message : String) (line : Int)
  /-- An error that reached the outside. -/
  | notice (message : String) (internal : Bool)
  deriving DecidableEq

open Text in
def Diagnostic.render (style : Style) : Diagnostic → String
  | .report r =>
    style.bold ("[line " ++ integer r.line ++ "]") ++ " " ++ style.alarm "Error" ++ r.place ++
      ": " ++ r.message ++ "\n"
  | .runtime message line =>
    style.alarm "Runtime error" ++ ": " ++ message ++ "\n[line " ++ integer line ++ "]\n"
  | .notice message internal =>
    (if internal then style.alarm "[internal] " else "") ++ style.alarm "error: " ++ message ++
      "\n"

def Diagnostic.renderAll (style : Text.Style) (ds : List Diagnostic) : String :=
  String.join (ds.map (·.render style))

end LoxLang
