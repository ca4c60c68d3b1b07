import LoxLang.Log.Fault
import LoxLang.Text.Newline
import LoxLang.Text.Utf8

/-! # Source files

A program is read from a file as UTF-8, with its line ends unified. Reading can fail because the
file cannot be opened, because no file can have such a path, or because of its bytes. -/

namespace LoxLang

inductive SourceFile where
  | text (source : String)
  | unopenable
  | invalidPath
  | undecodable (defect : Text.Utf8.Defect)

namespace SourceFile

/-- Whether a file can have the path: no path has a character with the code zero. -/
def isPath (path : String) : Bool := !path.toList.contains (Char.ofNat 0)

/-- The program in a file with the given bytes. -/
def ofBytes (bytes : List UInt8) : SourceFile :=
  match Text.Utf8.decode bytes with
  | .ok cs => text (String.ofList (Text.unifyNewlines cs))
  | .error defect => undecodable defect

/-- The source, or the fault of reading the file at the given path. -/
def source (path : String) : SourceFile → Except Fault String
  | text source => .ok source
  | unopenable =>
    .error (.error (.general ("'" ++ path ++ "' could not be opened") false exitNoInput))
  | invalidPath => .error (.system "ValueError" "embedded null byte")
  | undecodable defect => .error (.system "UnicodeDecodeError" defect.message)

end SourceFile
end LoxLang
