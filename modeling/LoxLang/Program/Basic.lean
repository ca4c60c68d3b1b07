import LoxLang.Program.Arguments
import LoxLang.Repl.Basic
import LoxLang.SourceFile
import LoxLang.Tree.Render

/-! # The program

Runs a script, lists its tokens or shows its trees, and tells by the exit code what happened: 65
for syntax errors, 70 for an error at run time, 66 for a script that cannot be opened. Without a
script the interactive loop runs on the input. What reading a path gives is up to the system around
the program, and so is the style of the diagnostics: both are parameters. Trees may be nested to any
depth, and no fault `recursionLimit` arises here. -/

namespace LoxLang

inductive Finish where
  /-- It comes to its end with a status. -/
  | returned (status : Int)
  /-- It is ended early with a status. -/
  | exited (status : Int)
  deriving DecidableEq

/-- What the program leaves behind. -/
structure Result where
  stdout : String
  stderr : String
  finish : Finish
  deriving DecidableEq

/-- The status that the log tells. -/
def Log.status (log : Log) : Int :=
  if log.hadError then exitSyntax
  else if log.hadRuntimeError then exitSoftware
  else exitOk

namespace Program

def unlines (lines : List String) : String := String.join (lines.map (· ++ "\n"))

/-- The texts of trees, up to the first that has none. -/
def renderAll : List Node → List String × Option Misplaced
  | [] => ([], none)
  | node :: rest =>
    match node.render with
    | .error m => ([], some m)
    | .ok text =>
      let (texts, m?) := renderAll rest
      (text :: texts, m?)

/-- Treats a source in the given mode. -/
def treat (s : Engine) (mode : Mode) (source : String) : Outcome :=
  match mode with
  | .run => s.run source false
  | .listTokens =>
    let (tokens, s) := s.scan source
    ⟨s, tokens.map Token.text, none⟩
  | .showTree =>
    let (statements, s) := s.parse source
    let (texts, m?) := renderAll (Stmt.toNodes statements)
    ⟨s, texts, m?.map fun m => .error m.toError⟩

/-- Treats the script at a path, guarded by a fatal log. -/
def runScript (style : Text.Style) (path : String) (mode : Mode) (file : SourceFile) : Result :=
  let s := Engine.empty true
  let outcome : Outcome :=
    match file.source path with
    | .error fault => ⟨s, [], some fault⟩
    | .ok source => treat s mode source
  let (log, ending) := outcome.engine.log.call (.leave outcome.fault)
  { stdout := outcome.text
    stderr := Diagnostic.renderAll style log.written
    finish :=
      match ending with
      | .raised (.exit (.code n)) => .exited n
      | _ => .returned log.status }

def runRepl (style : Text.Style) (input : String) : Result :=
  let dialogue := Repl.empty.start Repl.introText input
  { stdout := String.join (dialogue.output.map Output.text)
    stderr := Diagnostic.renderAll style dialogue.repl.engine.log.written
    finish := .returned exitOk }

/-- Does what the arguments ask for; `read` is what the files at paths hold. -/
def run (style : Text.Style) (read : String → SourceFile) (arguments : List String)
    (input : String) : Result :=
  match Arguments.request arguments with
  | .help => ⟨Arguments.helpText, "", .exited exitOk⟩
  | .misuse message => ⟨"", Arguments.misuseText message, .exited Arguments.exitMisuse⟩
  | .interactive => runRepl style input
  | .script path mode => runScript style path mode (read path)

end Program
end LoxLang
