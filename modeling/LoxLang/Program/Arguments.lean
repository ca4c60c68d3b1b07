import LoxLang.Text.Digit
import LoxLang.Text.Quoted

/-! # Command-line arguments

One optional script, and flags before or behind it. A flag may be cut short as long as no other
one is meant; two dashes end the flags. A number below zero and everything with a space in it is no
flag. All arguments are classified before the first one is obeyed. -/

namespace LoxLang

inductive Flag where
  | help
  | tokens
  | tree
  deriving DecidableEq

namespace Flag

/-- The long names of the flags; only `help` has a short one. -/
def longNames : List (String × Flag) :=
  [("--help", help), ("--tokens", tokens), ("--ast", tree)]

/-- The name of a flag in messages. -/
def label : Flag → String
  | help => "-h/--help"
  | tokens => "--tokens"
  | tree => "--ast"

end Flag

inductive Mode where
  | run
  | listTokens
  | showTree
  deriving DecidableEq

/-- What the arguments ask for. -/
inductive Request where
  | help
  | misuse (message : String)
  | interactive
  | script (path : String) (mode : Mode)
  deriving DecidableEq

namespace Arguments

/-- What an argument is. -/
inductive Item where
  | word (s : String)
  /-- The two dashes that end the flags. -/
  | dashes
  | flag (f : Flag)
  /-- A flag with something attached to it that it does not take. -/
  | burdened (f : Flag) (value : String)
  /-- It looks like a flag, but is none. -/
  | unknown (s : String)
  deriving DecidableEq

/-- Whether an item is one of the flags' places. -/
def Item.isFlag : Item → Bool
  | .flag _ | .burdened .. | .unknown _ => true
  | .word _ | .dashes => false

/-- A negative number in decimal digits, possibly with a point before some of them and with a line
end behind it. -/
def isNegativeNumber (cs : List Char) : Bool :=
  match cs with
  | '-' :: digits =>
    let digits := if digits.getLast? = some '\n' then digits.dropLast else digits
    match digits.dropWhile Text.isDecimal with
    | [] => !digits.isEmpty
    | '.' :: fraction => !fraction.isEmpty && fraction.all Text.isDecimal
    | _ => false
  | _ => false

/-- What is attached to the short flag: its letter may be repeated, and whatever begins with
another character is a value that the flag does not take. -/
def shortGroup : List Char → Item
  | [] => .flag .help
  | 'h' :: rest => shortGroup rest
  | value => .burdened .help (String.ofList value)

/-- The short flag with what follows its letter. An equals sign there is passed over, but not one
behind a repeated letter, and one that ends the argument attaches the empty value. -/
def shortItem : List Char → Item
  | ['='] => .burdened .help ""
  | '=' :: rest => shortGroup rest
  | rest => shortGroup rest

/-- The part of an argument before its first equals sign, and the part behind it if there is
one. -/
def splitEquals (cs : List Char) : String × Option String :=
  let name := String.ofList (cs.takeWhile (· != '='))
  match cs.dropWhile (· != '=') with
  | [] => (name, none)
  | _ :: value => (name, some (String.ofList value))

def longItem (f : Flag) : Option String → Item
  | none => .flag f
  | some value => .burdened f value

/-- An argument that starts with a dash and is no flag. -/
def dashedItem (argument : String) : Item :=
  if isNegativeNumber argument.toList || argument.toList.contains ' ' then .word argument
  else .unknown argument

/-- Classifies an argument with two dashes in front: the whole name of a flag, or the beginning of
exactly one of them. The beginning of several is an error. -/
def classifyLong (argument : String) : Except String Item :=
  let (name, value) := splitEquals argument.toList
  match Flag.longNames.lookup name with
  | some f => .ok (longItem f value)
  | none =>
    match Flag.longNames.filter fun (long, _) => name.toList.isPrefixOf long.toList with
    | [] => .ok (dashedItem argument)
    | [(_, f)] => .ok (longItem f value)
    | candidates =>
      .error ("ambiguous option: " ++ argument ++ " could match " ++
        String.intercalate ", " (candidates.map Prod.fst))

/-- Classifies an argument that is not two dashes. -/
def classify (argument : String) : Except String Item :=
  match argument.toList with
  | '-' :: '-' :: _ => classifyLong argument
  | '-' :: 'h' :: rest => .ok (shortItem rest)
  | '-' :: _ :: _ => .ok (dashedItem argument)
  | _ => .ok (.word argument)

/-- Classifies the arguments. Behind two dashes there are no flags. -/
def items : List String → Except String (List Item)
  | [] => .ok []
  | argument :: rest =>
    if argument = "--" then .ok (.dashes :: rest.map .word)
    else do
      let item ← classify argument
      return item :: (← items rest)

/-- What the arguments said so far. -/
structure Settings where
  script : Option String
  tokens : Bool
  tree : Bool
  /-- The arguments that mean nothing. -/
  extras : List String

/-- A word is the script, unless there is one already. -/
def Settings.addWord (s : Settings) (word : String) : Settings :=
  match s.script with
  | none => { s with script := some word }
  | some _ => { s with extras := s.extras ++ [word] }

/-- Obeys an argument; an early end is the request to which it leads. -/
def Settings.obey (s : Settings) : Item → Except Request Settings
  | .word word => .ok (s.addWord word)
  | .dashes => .ok { s with extras := s.extras ++ ["--"] }
  | .flag .help => .error .help
  | .flag .tokens => .ok { s with tokens := true }
  | .flag .tree => .ok { s with tree := true }
  | .burdened f value =>
    .error (.misuse ("argument " ++ f.label ++ ": ignored explicit argument " ++
      Text.quoted value))
  | .unknown argument => .ok { s with extras := s.extras ++ [argument] }

/-- Passes over two dashes directly before or behind the script, which is the first word. -/
def dropDashes : List Item → List Item
  | .dashes :: rest => rest
  | script :: .dashes :: rest => script :: rest
  | items => items

def Settings.request (s : Settings) : Request :=
  if s.extras.isEmpty then
    match s.script with
    | none => .interactive
    | some path =>
      .script path (if s.tokens then .listTokens else if s.tree then .showTree else .run)
  else .misuse ("unrecognized arguments: " ++ String.intercalate " " s.extras)

/-- Obeys classified arguments: those up to the last flag, and then the others. Two dashes belong
to the script only if it is among the others. -/
def obeyAll (items : List Item) : Except Request Settings := do
  let tail := (items.reverse.takeWhile (!·.isFlag)).reverse
  let head := items.take (items.length - tail.length)
  let settings ← head.foldlM Settings.obey ⟨none, false, false, []⟩
  (if settings.script.isSome then tail else dropDashes tail).foldlM Settings.obey settings

/-- What the arguments ask for. -/
def request (arguments : List String) : Request :=
  match items arguments with
  | .error message => .misuse message
  | .ok items =>
    match obeyAll items with
    | .error request => request
    | .ok settings => settings.request

def usage : String := "usage: lox [-h] [--tokens] [--ast] [script]\n"

def helpText : String :=
  usage ++ "\n" ++
  "Tree-walking interpreter for the Lox language.\n\n" ++
  "positional arguments:\n" ++
  "  script      script to run (if empty, goes to interactive mode)\n\n" ++
  "options:\n" ++
  "  -h, --help  show this help message and exit\n" ++
  "  --tokens    print the script's tokens instead of running it\n" ++
  "  --ast       print the script's syntax tree instead of running it\n"

def misuseText (message : String) : String :=
  usage ++ "lox: error: " ++ message ++ "\n"

def exitMisuse : Int := 2

end Arguments
end LoxLang
