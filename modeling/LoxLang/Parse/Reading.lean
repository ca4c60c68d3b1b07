import LoxLang.Parse.Cause

/-! # Reading phrases off a token list

A reader takes a phrase off the front of a token list. Either it reads the phrase and leaves the
tokens behind it, or it is stuck at the tokens that it cannot continue with; in both cases it may
have found errors, in the order of their finding, and when it is stuck the last of them says why.

Readers call each other on shorter and shorter lists. `Bounded` pairs a reading with the fact that
makes this terminate: a phrase that was read took at least one token. -/

namespace LoxLang

/-- How reading a phrase ends. -/
inductive Reading (α : Type) where
  | done (value : α) (rest : List Token) (errors : List ParseError)
  | stuck (rest : List Token) (errors : List ParseError)

namespace Reading

variable {α β : Type}

/-- The tokens that are left. -/
def rest : Reading α → List Token
  | done _ rest _ => rest
  | stuck rest _ => rest

/-- The errors that were found. -/
def errors : Reading α → List ParseError
  | done _ _ errors => errors
  | stuck _ errors => errors

/-- Puts errors that were found earlier in front. -/
def after (earlier : List ParseError) : Reading α → Reading α
  | done value rest errors => done value rest (earlier ++ errors)
  | stuck rest errors => stuck rest (earlier ++ errors)

/-- Goes on behind a phrase, if it was read. -/
def bind : Reading α → (α → List Token → Reading β) → Reading β
  | done value rest errors, next => (next value rest).after errors
  | stuck rest errors, _ => stuck rest errors

/-- The reading left fewer than `n` tokens, or at most `n` if it was stuck. -/
def Within (n : Nat) : Reading α → Prop
  | done _ rest _ => rest.length < n
  | stuck rest _ => rest.length ≤ n

theorem Within.mono {m n : Nat} (hmn : m ≤ n) : {r : Reading α} → r.Within m → r.Within n
  | done .., h => Nat.lt_of_lt_of_le h hmn
  | stuck .., h => Nat.le_trans h hmn

theorem Within.after {n : Nat} (earlier : List ParseError) :
    {r : Reading α} → r.Within n → (r.after earlier).Within n
  | done .., h => h
  | stuck .., h => h

end Reading

theorem length_lt_cons (t : Token) (rest : List Token) : rest.length < (t :: rest).length :=
  Nat.lt_succ_self _

theorem length_lt_of_cons {t : Token} {rest ts : List Token} (h : (t :: rest).length < ts.length) :
    rest.length < ts.length :=
  Nat.lt_of_succ_lt h

/-- A reading of a list of `n` tokens. -/
structure Bounded (n : Nat) (α : Type) where
  reading : Reading α
  within : reading.Within n

namespace Bounded

variable {α β : Type} {m n : Nat}

/-- A phrase was read without an error. -/
def done (value : α) (rest : List Token) (h : rest.length < n) : Bounded n α :=
  ⟨.done value rest [], h⟩

/-- A phrase was read, but a token in it is wrong. -/
def doneWith (value : α) (rest : List Token) (h : rest.length < n) (error : ParseError) :
    Bounded n α :=
  ⟨.done value rest [error], h⟩

/-- The reader is stuck at the start; the first token, or the end mark, is to blame. -/
def stuck (last : Token) (cause : ParseCause) (ts : List Token) : Bounded ts.length α :=
  ⟨.stuck ts [⟨cause, ts.headD last⟩], Nat.le_refl _⟩

/-- A reading of a list is one of any list that is as long. -/
def weaken (r : Bounded m α) (h : m ≤ n) : Bounded n α :=
  ⟨r.reading, r.within.mono h⟩

/-- A reading of a list is one of any longer list. -/
def below (r : Bounded m α) (h : m < n) : Bounded n α :=
  r.weaken (Nat.le_of_lt h)

/-- Puts errors that were found earlier in front. -/
def after (r : Bounded n α) (earlier : List ParseError) : Bounded n α :=
  ⟨r.reading.after earlier, r.within.after earlier⟩

/-- Goes on behind a phrase, if it was read, with fewer tokens than before. -/
def bind (r : Bounded n α) (next : α → (rest : List Token) → rest.length < n → Bounded n β) :
    Bounded n β :=
  match r with
  | ⟨.done value rest errors, h⟩ => (next value rest h).after errors
  | ⟨.stuck rest errors, h⟩ => ⟨.stuck rest errors, h⟩

end Bounded

/-- Reads one token of the given kind. -/
def expect (last : Token) (kind : Kind) (cause : ParseCause) (ts : List Token) :
    Bounded ts.length Token :=
  match ts with
  | [] => .stuck last cause []
  | t :: rest =>
    if t.kind = kind then .done t rest (length_lt_cons t rest)
    else .stuck last cause (t :: rest)

end LoxLang
