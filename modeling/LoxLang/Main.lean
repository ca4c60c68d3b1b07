import LoxLang.Program.Basic

/-! # The command line

Connects the program to the files, the input and the output of its process. -/

namespace LoxLang

/-- Highlighting by the control sequences for bold and for bold red. -/
def terminalStyle : Text.Style where
  bold s := "\x1b[1m" ++ s ++ "\x1b[0m"
  alarm s := "\x1b[1m\x1b[31m" ++ s ++ "\x1b[0m"

def readSourceFile (path : String) : IO SourceFile := do
  unless SourceFile.isPath path do
    return .invalidPath
  try
    return .ofBytes (← IO.FS.readBinFile path).toList
  catch _ =>
    return .unopenable

/-- Writes the diagnostics that were added to a log. -/
def writeDiagnostics (style : Text.Style) (before after : Log) : IO Unit := do
  let added := after.written.drop before.written.length
  (← IO.getStderr).putStr (Diagnostic.renderAll style added)

/-- Takes lines from the input until one stops the loop. -/
partial def interact (style : Text.Style) (r : Repl) : IO Unit := do
  let stdout ← IO.getStdout
  stdout.putStr r.prompt.text
  stdout.flush
  let line ← (← IO.getStdin).getLine
  let answer := r.step (if line.isEmpty then "EOF" else line)
  stdout.putStr (String.join (answer.output.map Output.text))
  writeDiagnostics style r.engine.log answer.repl.engine.log
  unless answer.stop do
    interact style answer.repl

/-- Writes a result, and gives its status. -/
def finishWith (result : Result) : IO UInt32 := do
  (← IO.getStdout).putStr result.stdout
  (← IO.getStderr).putStr result.stderr
  match result.finish with
  | .returned status | .exited status => return status.toNat.toUInt32

end LoxLang

open LoxLang in
def main (arguments : List String) : IO UInt32 := do
  let style := if ← (← IO.getStdout).isTty then terminalStyle else Text.Style.plain
  match Arguments.request arguments with
  | .interactive =>
    IO.println Repl.introText
    interact style Repl.empty
    return 0
  | .script path _ =>
    let file ← readSourceFile path
    finishWith (Program.run style (fun _ => file) arguments "")
  | .help | .misuse _ => finishWith (Program.run style (fun _ => .unopenable) arguments "")
