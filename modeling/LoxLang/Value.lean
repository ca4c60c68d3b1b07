import LoxLang.Number.Basic
import LoxLang.Text.Quoted

/-! # Values

What expressions evaluate to: nothing, truth values, numbers and strings. There is no conversion
between the four kinds, neither in a condition nor in a comparison. -/

namespace LoxLang

inductive Value where
  | nil
  | bool (b : Bool)
  | number (x : Number)
  | string (s : String)
  deriving DecidableEq

namespace Value

/-- Only `nil` and `false` count as false. -/
def isTruthy : Value → Bool
  | nil => false
  | bool b => b
  | _ => true

/-- Equality of the language: values of different kinds differ, and numbers are compared as
numbers, so that a number that is not one differs from itself. -/
def isEqual : Value → Value → Bool
  | nil, nil => true
  | bool a, bool b => a == b
  | number x, number y => x == y
  | string s, string t => s == t
  | _, _ => false

def isNumber : Value → Bool
  | number _ => true
  | _ => false

/-- The form in which a program shows the value. -/
def display : Value → String
  | nil => "nil"
  | bool true => "true"
  | bool false => "false"
  | number x => x.display
  | string s => s

/-- The form in which a listing of tokens shows a literal; where there is none, nothing. -/
def listing : Value → String
  | nil => ""
  | bool true => "True"
  | bool false => "False"
  | number x => x.text
  | string s => s

/-- The form in which a listing of bindings shows the value: strings are quoted. -/
def inspect : Value → String
  | nil => "None"
  | bool true => "True"
  | bool false => "False"
  | number x => x.text
  | string s => Text.quoted s

end Value
end LoxLang
