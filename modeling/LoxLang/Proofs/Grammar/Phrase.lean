import LoxLang.Parse.Rules
import LoxLang.Proofs.Grammar.Basic

/-! # Phrases: what the expression readers read

`Phrase` is the expression grammar as the readers see it. It has one rule more than `Derives`: an
assignment to something that is not a variable is a phrase too, with the tree of its left side and
an error. Without errors the two agree (`Derives.phrase`, `Phrase.derives`).

The readers are exact for phrases. What a reader reads is a phrase, and where it is stuck it raises
one error at the token it cannot continue with (`readLevel_meets`); and a phrase is read to its
end, whatever follows it that does not continue it (`Phrase.reading_eq_done`). -/

namespace LoxLang

/-! ## Facts about readings -/

namespace Reading

variable {α β : Type}

/-- What holds of a reading, in its two cases. -/
def Meets (onDone : α → List Token → List ParseError → Prop)
    (onStuck : List Token → List ParseError → Prop) : Reading α → Prop
  | done value rest errors => onDone value rest errors
  | stuck rest errors => onStuck rest errors

variable {onDone : α → List Token → List ParseError → Prop}
  {onDone' : β → List Token → List ParseError → Prop}
  {onStuck onStuck' : List Token → List ParseError → Prop}

/-- Going on behind a phrase: what is stuck stays stuck, and what is read is the start of what
follows. -/
theorem Meets.bind_after {r : Reading α} {next : α → List Token → Reading β}
    {earlier : List ParseError} (hr : r.Meets onDone onStuck)
    (hstuck : ∀ rest es, onStuck rest es → onStuck' rest (earlier ++ es))
    (hdone : ∀ value rest es, r = done value rest es → onDone value rest es →
      ((next value rest).after (earlier ++ es)).Meets onDone' onStuck') :
    ((r.bind next).after earlier).Meets onDone' onStuck' := by
  cases r with
  | done value rest es =>
    rw [bind_done, after_after]
    exact hdone value rest es rfl hr
  | stuck rest es => exact hstuck rest es hr

theorem Meets.bind {r : Reading α} {next : α → List Token → Reading β}
    (hr : r.Meets onDone onStuck)
    (hstuck : ∀ rest es, onStuck rest es → onStuck' rest es)
    (hdone : ∀ value rest es, r = done value rest es → onDone value rest es →
      ((next value rest).after es).Meets onDone' onStuck') :
    (r.bind next).Meets onDone' onStuck' := by
  cases r with
  | done value rest es => exact hdone value rest es rfl hr
  | stuck rest es => exact hstuck rest es hr

theorem Meets.mono {r : Reading α} {onDone₂ : α → List Token → List ParseError → Prop}
    (hr : r.Meets onDone onStuck)
    (hdone : ∀ value rest es, onDone value rest es → onDone₂ value rest es) :
    r.Meets onDone₂ onStuck := by
  cases r with
  | done value rest es => exact hdone value rest es hr
  | stuck rest es => exact hr

end Reading

/-- A phrase that was read took a token. -/
theorem Bounded.length_lt_of_done {α : Type} {n : Nat} {r : Bounded n α} {value : α}
    {rest : List Token} {es : List ParseError} (h : r.reading = .done value rest es) :
    rest.length < n := by
  have hwithin := r.within
  rw [h] at hwithin
  exact hwithin

/-- All errors are about targets of assignments, so none of them was raised. -/
def OnlyTargets (es : List ParseError) : Prop := ∀ e ∈ es, e.cause = .invalidTarget

theorem OnlyTargets.nil : OnlyTargets [] := fun _ h => nomatch h

theorem OnlyTargets.append {es fs : List ParseError} (hes : OnlyTargets es)
    (hfs : OnlyTargets fs) : OnlyTargets (es ++ fs) := by
  intro e he
  rcases List.mem_append.mp he with he | he
  · exact hes e he
  · exact hfs e he

/-- Reading the list `ts` ended with an error raised at `rest`, the last one that was found. -/
structure StuckAt (last : Token) (ts rest : List Token) (es : List ParseError) : Prop where
  suffix : rest <:+ ts
  raised : ∃ fs cause, es = fs ++ [⟨cause, rest.headD last⟩] ∧ OnlyTargets fs ∧
    cause ≠ .invalidTarget

theorem StuckAt.errors_ne_nil {last : Token} {ts rest : List Token} {es : List ParseError}
    (h : StuckAt last ts rest es) : es ≠ [] := by
  obtain ⟨-, gs, cause, rfl, -, -⟩ := h
  exact List.append_ne_nil_of_right_ne_nil _ (List.cons_ne_nil _ _)

theorem reading_expect_of_kind (last : Token) {kind : Kind} (cause : ParseCause) {t : Token}
    (h : t.kind = kind) (rest : List Token) :
    (expect last kind cause (t :: rest)).reading = .done t rest [] := by
  rw [reading_expect_cons, if_pos h]

/-! ## Levels -/

namespace Level

/-- A level is above its operands. -/
theorem rank_operand_lt {level : Level} (h : level.isBinary = true) :
    level.operand.rank < level.rank := by
  cases level with
  | equality | comparison | term | factor => exact Nat.lt_succ_self _
  | assignment | unary | primary => cases h

/-- A token is an operator of at most one level of binary operators. -/
theorem eq_of_hasOperator {level other : Level} {kind : Kind} (hlevel : level.isBinary = true)
    (hother : other.isBinary = true) (h : level.hasOperator kind = true)
    (h' : other.hasOperator kind = true) : level = other := by
  unfold hasOperator at h
  split at h <;> cases other <;> first | rfl | contradiction

theorem hasOperator_equal (level : Level) : level.hasOperator .equal = false := by
  cases level <;> rfl

/-- The readers call each other on shorter lists, and on the same list at tighter levels only. -/
theorem readers_induction {motive : Level → List Token → Prop}
    (primary : ∀ ts, (∀ level us, us.length < ts.length → motive level us) → motive .primary ts)
    (unary : ∀ ts, (∀ level us, us.length < ts.length → motive level us) →
      motive .primary ts → motive .unary ts)
    (binary : ∀ level ts, level.isBinary = true →
      (∀ level us, us.length < ts.length → motive level us) →
      motive level.operand ts → motive level ts)
    (assignment : ∀ ts, (∀ level us, us.length < ts.length → motive level us) →
      motive .equality ts → motive .assignment ts)
    (level : Level) (ts : List Token) : motive level ts := by
  induction hn : ts.length using Nat.strongRecOn generalizing level ts with
  | ind n ih =>
    subst hn
    have shorter : ∀ level us, us.length < ts.length → motive level us :=
      fun level us h => ih us.length h level us rfl
    have hprimary := primary ts shorter
    have hunary := unary ts shorter hprimary
    have hfactor := binary .factor ts rfl shorter hunary
    have hterm := binary .term ts rfl shorter hfactor
    have hcomparison := binary .comparison ts rfl shorter hterm
    have hequality := binary .equality ts rfl shorter hcomparison
    cases level with
    | assignment => exact assignment ts shorter hequality
    | equality => exact hequality
    | comparison => exact hcomparison
    | term => exact hterm
    | factor => exact hfactor
    | unary => exact hunary
    | primary => exact hprimary

end Level

/-- What follows a phrase of the level does not continue it. -/
def Stops (level : Level) (rest : List Token) : Prop :=
  ∀ t ∈ rest.head?, (level = .assignment → t.kind ≠ .equal) ∧
    ∀ other : Level, other.isBinary = true → other.rank ≤ level.rank →
      other.hasOperator t.kind = false

namespace Stops

variable {level : Level} {rest : List Token} {t : Token}

theorem operand (h : Stops level rest) (hlevel : level.isBinary = true) :
    Stops level.operand rest := by
  intro t ht
  refine ⟨fun hassign => ?_, fun other hother hrank => ?_⟩
  · cases level <;> cases hassign
  · exact (h t ht).2 other hother (Nat.le_of_lt (Nat.lt_of_le_of_lt hrank
      (Level.rank_operand_lt hlevel)))

theorem equality (h : Stops .assignment rest) : Stops .equality rest := by
  intro t ht
  refine ⟨nofun, fun other hother hrank => ?_⟩
  exact (h t ht).2 other hother (Nat.le_succ_of_le hrank)

/-- An operator of a level ends an operand of the level. -/
theorem of_hasOperator (hlevel : level.isBinary = true) (ht : level.hasOperator t.kind = true) :
    Stops level.operand (t :: rest) := by
  rintro _ ⟨⟩
  refine ⟨fun hassign => ?_, fun other hother hrank => ?_⟩
  · cases level <;> cases hassign
  · rw [← Bool.not_eq_true]
    intro h
    cases Level.eq_of_hasOperator hother hlevel h ht
    exact absurd hrank (Nat.not_le_of_lt (Level.rank_operand_lt hlevel))

/-- An equals sign ends an equality. -/
theorem of_equal (ht : t.kind = .equal) : Stops .equality (t :: rest) := by
  rintro _ ⟨⟩
  refine ⟨nofun, fun other _ _ => ?_⟩
  rw [ht]
  exact Level.hasOperator_equal other

/-- A closing parenthesis or a semicolon ends every phrase. -/
theorem of_closing (ht : t.kind = .rightParen ∨ t.kind = .semicolon) : Stops level (t :: rest) := by
  rintro _ ⟨⟩
  rcases ht with ht | ht
  all_goals
    rw [ht]
    exact ⟨nofun, fun other _ _ => by cases other <;> rfl⟩

/-- Nothing is read in addition to what is complete. -/
theorem reading_readMore (h : Stops level rest) (hlevel : level.isBinary = true) (last : Token)
    (left : Expr) : (readMore last level left rest).reading = .done left rest [] := by
  cases rest with
  | nil => exact reading_readMore_nil ..
  | cons t rest =>
    rw [reading_readMore_cons, (h t rfl).2 level hlevel (Nat.le_refl _)]
    rfl

end Stops

/-! ## Phrases -/

/-- The tokens are an expression of the level, or have the form of one but for the targets of
assignments; this is the tree, and these are the errors in the order in which they are found. -/
inductive Phrase : Level → List Token → Expr → List ParseError → Prop
  | assign {ts us : List Token} {name equals : Token} {value : Expr} {es fs : List ParseError} :
    Phrase .equality ts (.variable name) es → equals.kind = .equal →
    Phrase .assignment us value fs →
    Phrase .assignment (ts ++ equals :: us) (.assign name value) (es ++ fs)
  /-- The left side is no variable: the assignment is dropped, and its left side remains. -/
  | invalidTarget {ts us : List Token} {target : Expr} {equals : Token} {value : Expr}
      {es fs : List ParseError} :
    Phrase .equality ts target es → (∀ name, target ≠ .variable name) → equals.kind = .equal →
    Phrase .assignment us value fs →
    Phrase .assignment (ts ++ equals :: us) target (es ++ fs ++ [⟨.invalidTarget, equals⟩])
  | equality {ts : List Token} {e : Expr} {es : List ParseError} :
    Phrase .equality ts e es → Phrase .assignment ts e es
  | operand {level : Level} {ts : List Token} {e : Expr} {es : List ParseError} :
    level.isBinary = true → Phrase level.operand ts e es → Phrase level ts e es
  | binary {level : Level} {ts us : List Token} {op : Token} {left right : Expr}
      {es fs : List ParseError} :
    level.isBinary = true → Phrase level ts left es → level.hasOperator op.kind = true →
    Phrase level.operand us right fs →
    Phrase level (ts ++ op :: us) (.binary left op right) (es ++ fs)
  | unary {op : Token} {ts : List Token} {right : Expr} {es : List ParseError} :
    Level.unary.hasOperator op.kind = true → Phrase .unary ts right es →
    Phrase .unary (op :: ts) (.unary op right) es
  | primary {ts : List Token} {e : Expr} {es : List ParseError} :
    Phrase .primary ts e es → Phrase .unary ts e es
  | atom {t : Token} {e : Expr} : t.atom? = some e → Phrase .primary [t] e []
  | grouping {left right : Token} {ts : List Token} {inner : Expr} {es : List ParseError} :
    left.kind = .leftParen → Phrase .assignment ts inner es → right.kind = .rightParen →
    Phrase .primary (left :: (ts ++ [right])) (.grouping inner) es

namespace Phrase

variable {level : Level} {ts : List Token} {e : Expr} {es : List ParseError}

theorem onlyTargets (h : Phrase level ts e es) : OnlyTargets es := by
  induction h with
  | assign _ _ _ ih₁ ih₂ => exact ih₁.append ih₂
  | invalidTarget _ _ _ _ ih₁ ih₂ =>
    refine (ih₁.append ih₂).append fun f hf => ?_
    cases List.mem_singleton.mp hf
    rfl
  | equality _ ih | operand _ _ ih | unary _ _ ih | primary _ ih | grouping _ _ _ ih => exact ih
  | binary _ _ _ _ ih₁ ih₂ => exact ih₁.append ih₂
  | atom _ => exact .nil

/-- A primary phrase is one of every level up to equality. -/
theorem equality_of_primary (h : Phrase .primary ts e es) : Phrase .equality ts e es := by
  have hfactor : Phrase .factor ts e es := .operand rfl h.primary
  have hterm : Phrase .term ts e es := .operand rfl hfactor
  have hcomparison : Phrase .comparison ts e es := .operand rfl hterm
  exact .operand rfl hcomparison

end Phrase

theorem Token.atom?_eq_variable {t name : Token} (h : t.atom? = some (.variable name)) :
    t = name ∧ t.kind = .identifier := by
  unfold Token.atom? at h
  split at h <;> cases h
  exact ⟨rfl, by assumption⟩

/-- The only phrase whose tree is a variable is the name on its own. -/
theorem Phrase.eq_singleton_of_variable {level : Level} {ts : List Token} {name : Token}
    {es : List ParseError} (h : Phrase level ts (.variable name) es) :
    ts = [name] ∧ name.kind = .identifier ∧ es = [] := by
  generalize he : Expr.variable name = e at h
  induction h with
  | assign | binary | unary | grouping => cases he
  | invalidTarget _ hne => exact absurd he.symm (hne name)
  | equality _ ih | operand _ _ ih | primary _ ih => exact ih he
  | atom h =>
    subst he
    obtain ⟨rfl, hkind⟩ := Token.atom?_eq_variable h
    exact ⟨rfl, hkind, rfl⟩

/-! ## A phrase is read to its end -/

theorem Token.atom?_of_leftParen {t : Token} (h : t.kind = .leftParen) : t.atom? = none := by
  unfold Token.atom?
  rw [h]

/-- The kinds of the tokens that are expressions on their own. -/
def Kind.atoms : List Kind := [.kwFalse, .kwTrue, .kwNil, .number, .string, .identifier]

theorem Token.kind_mem_atoms {t : Token} {e : Expr} (h : t.atom? = some e) :
    t.kind ∈ Kind.atoms := by
  unfold Token.atom? at h
  split at h <;> cases h <;> simp_all [Kind.atoms]

theorem Level.hasOperator_unary_of_atom? {t : Token} {e : Expr} (h : t.atom? = some e) :
    Level.unary.hasOperator t.kind = false := by
  have hatoms : ∀ kind ∈ Kind.atoms, Level.unary.hasOperator kind = false := by decide
  exact hatoms t.kind (Token.kind_mem_atoms h)

/-- A primary phrase begins with no operator. -/
theorem Phrase.head_of_primary {ts : List Token} {e : Expr} {es : List ParseError}
    (h : Phrase .primary ts e es) :
    ∃ t us, ts = t :: us ∧ Level.unary.hasOperator t.kind = false := by
  cases h with
  | operand hlevel | binary hlevel => cases hlevel
  | atom h => exact ⟨_, [], rfl, Level.hasOperator_unary_of_atom? h⟩
  | grouping hleft => exact ⟨_, _, rfl, by rw [hleft]; rfl⟩

/-- An operand that is read, and what its level reads behind it. -/
theorem reading_readLevel_of_operand {last : Token} {level : Level} (hlevel : level.isBinary = true)
    {ts rest : List Token} {e : Expr} {es : List ParseError}
    (h : (readLevel last level.operand ts).reading = .done e rest es) :
    (readLevel last level ts).reading = (readMore last level e rest).reading.after es := by
  rw [reading_readLevel_binary last hlevel, h, Reading.bind_done]

/-- At a level of binary operators a phrase may be followed by more operators of the level; the
reader then goes on with the phrase as the left operand. -/
theorem Phrase.reading_eq {level : Level} {ts : List Token} {e : Expr} {es : List ParseError}
    (h : Phrase level ts e es) (last : Token) (rest : List Token) :
    (Stops level rest → (readLevel last level (ts ++ rest)).reading = .done e rest es) ∧
    (level.isBinary = true → Stops level.operand rest →
      (readLevel last level (ts ++ rest)).reading =
        (readMore last level e rest).reading.after es) := by
  -- at a level of binary operators, the second part gives the first
  have complete {level : Level} {ts : List Token} {e : Expr} {es : List ParseError}
      {rest : List Token} (hlevel : level.isBinary = true)
      (h : Stops level.operand rest → (readLevel last level (ts ++ rest)).reading =
        (readMore last level e rest).reading.after es) (hstops : Stops level rest) :
      (readLevel last level (ts ++ rest)).reading = .done e rest es := by
    rw [h (hstops.operand hlevel), hstops.reading_readMore hlevel, Reading.after, List.append_nil]
  induction h generalizing rest with
  | @assign ts us name equals value es fs _ hequals _ ih₁ ih₂ =>
    refine ⟨fun hstops => ?_, fun hlevel => by cases hlevel⟩
    rw [List.append_assoc, List.cons_append, reading_readLevel_assignment,
      (ih₁ (equals :: (us ++ rest))).1 (.of_equal hequals)]
    simp only [Reading.bind_done, if_pos hequals, (ih₂ rest).1 hstops, Reading.after,
      List.append_nil]
  | @invalidTarget ts us target equals value es fs _ htarget hequals _ ih₁ ih₂ =>
    refine ⟨fun hstops => ?_, fun hlevel => by cases hlevel⟩
    rw [List.append_assoc, List.cons_append, reading_readLevel_assignment,
      (ih₁ (equals :: (us ++ rest))).1 (.of_equal hequals)]
    simp only [Reading.bind_done, if_pos hequals, (ih₂ rest).1 hstops, Reading.after,
      List.append_assoc]
  | equality _ ih =>
    refine ⟨fun hstops => ?_, fun hlevel => by cases hlevel⟩
    rw [reading_readLevel_assignment, (ih rest).1 hstops.equality, Reading.bind_done]
    cases rest with
    | nil => simp only [Reading.after, List.append_nil]
    | cons t rest => simp only [if_neg ((hstops t rfl).1 rfl), Reading.after, List.append_nil]
  | operand hlevel _ ih =>
    have hmore := fun hstops => reading_readLevel_of_operand hlevel ((ih rest).1 hstops)
    exact ⟨complete hlevel hmore, fun _ => hmore⟩
  | @binary level ts us op left right es fs hlevel _ hop _ ih₁ ih₂ =>
    have hmore : Stops level.operand rest →
        (readLevel last level (ts ++ op :: us ++ rest)).reading =
          (readMore last level (.binary left op right) rest).reading.after (es ++ fs) := by
      intro hstops
      rw [List.append_assoc, List.cons_append,
        (ih₁ (op :: (us ++ rest))).2 hlevel (.of_hasOperator hlevel hop), reading_readMore_cons,
        if_pos hop, (ih₂ rest).1 hstops, Reading.bind_done, Reading.after_after]
    exact ⟨complete hlevel hmore, fun _ => hmore⟩
  | unary hop _ ih =>
    refine ⟨fun hstops => ?_, fun hlevel => by cases hlevel⟩
    rw [List.cons_append, reading_readLevel_unary_cons, if_pos hop, (ih rest).1 hstops]
    simp only [Reading.bind_done, Reading.after, List.append_nil]
  | primary h ih =>
    refine ⟨fun hstops => ?_, fun hlevel => by cases hlevel⟩
    obtain ⟨t, us, rfl, ht⟩ := h.head_of_primary
    rw [List.cons_append, reading_readLevel_unary_cons, if_neg (by simp [ht])]
    refine (ih rest).1 fun t ht => ⟨fun hlevel => ?_, fun other hother hrank => ?_⟩
    · cases hlevel
    · exact (hstops t ht).2 other hother (Nat.le_succ_of_le hrank)
  | atom h =>
    refine ⟨fun _ => ?_, fun hlevel => by cases hlevel⟩
    rw [List.singleton_append, reading_readLevel_primary_cons, h]
  | @grouping left right ts inner es hleft _ hright ih =>
    refine ⟨fun _ => ?_, fun hlevel => by cases hlevel⟩
    have hinner := (ih (right :: rest)).1 (.of_closing (.inl hright))
    rw [List.cons_append, List.append_assoc, List.singleton_append, reading_readLevel_primary_cons,
      Token.atom?_of_leftParen hleft]
    simp only [if_pos hleft, hinner, Reading.bind_done, reading_expect_of_kind _ _ hright,
      Reading.after, List.append_nil]

theorem Phrase.reading_eq_done {level : Level} {ts rest : List Token} {e : Expr}
    {es : List ParseError} (h : Phrase level ts e es) (last : Token) (hrest : Stops level rest) :
    (readLevel last level (ts ++ rest)).reading = .done e rest es :=
  (h.reading_eq last rest).1 hrest

/-! ## What is read is a phrase -/

/-- What a reader took off the list before it was stuck: single tokens and whole phrases, with the
errors in the phrases. -/
inductive Taken : List Token → List ParseError → Prop
  | nil : Taken [] []
  | token {t : Token} {ts : List Token} {es : List ParseError} : Taken ts es → Taken (t :: ts) es
  | phrase {level : Level} {ts us : List Token} {e : Expr} {es fs : List ParseError} :
    Phrase level ts e es → Taken us fs → Taken (ts ++ us) (es ++ fs)

namespace Taken

variable {ts us : List Token} {es fs : List ParseError}

theorem append (h : Taken ts es) (hus : Taken us fs) : Taken (ts ++ us) (es ++ fs) := by
  induction h with
  | nil => exact hus
  | token _ ih => exact ih.token
  | phrase h _ ih =>
    rw [List.append_assoc, List.append_assoc]
    exact ih.phrase h

theorem tokens : (ts : List Token) → Taken ts []
  | [] => .nil
  | _ :: ts => (tokens ts).token

theorem concat (h : Taken ts es) (t : Token) : Taken (ts ++ [t]) es := by
  simpa using h.append (tokens [t])

theorem onlyTargets (h : Taken ts es) : OnlyTargets es := by
  induction h with
  | nil => exact .nil
  | token _ ih => exact ih
  | phrase h _ ih => exact h.onlyTargets.append ih

end Taken

theorem Phrase.taken {level : Level} {ts : List Token} {e : Expr} {es : List ParseError}
    (h : Phrase level ts e es) : Taken ts es := by
  simpa using Taken.nil.phrase h

/-- Reading the list ended behind what was taken, with an error raised at the token there. -/
inductive Halts (last : Token) : List Token → List Token → List ParseError → Prop
  | intro {front rest : List Token} {fs : List ParseError} {cause : ParseCause} :
    Taken front fs → cause ≠ .invalidTarget →
    Halts last (front ++ rest) rest (fs ++ [⟨cause, rest.headD last⟩])

namespace Halts

variable {last : Token} {front ts rest : List Token} {es fs : List ParseError}

theorem here {cause : ParseCause} (h : cause ≠ .invalidTarget) :
    Halts last ts ts [⟨cause, ts.headD last⟩] :=
  .intro .nil h

/-- Being stuck behind what was taken is being stuck. -/
theorem after (h : Halts last ts rest fs) (hfront : Taken front es) :
    Halts last (front ++ ts) rest (es ++ fs) := by
  cases h with
  | intro htaken hcause =>
    rw [← List.append_assoc, ← List.append_assoc]
    exact .intro (hfront.append htaken) hcause

theorem stuckAt (h : Halts last ts rest es) : StuckAt last ts rest es := by
  cases h with
  | @intro front _ fs cause htaken hcause =>
    exact ⟨⟨front, rfl⟩, fs, cause, rfl, htaken.onlyTargets, hcause⟩

end Halts

/-- One token is read, or the reader is stuck at it. -/
theorem expect_meets (last : Token) (kind : Kind) {cause : ParseCause} (ts : List Token)
    (hcause : cause ≠ .invalidTarget) :
    (expect last kind cause ts).reading.Meets
      (fun t rest es => ts = t :: rest ∧ t.kind = kind ∧ es = []) (Halts last ts) := by
  cases ts with
  | nil => exact .here hcause
  | cons t rest =>
    rw [reading_expect_cons]
    split
    · next h => exact ⟨rfl, h, rfl⟩
    · exact .here hcause

/-- The tokens in front of `rest` are a phrase of the level. -/
def PhraseOff (level : Level) (ts : List Token) (e : Expr) (rest : List Token)
    (es : List ParseError) : Prop :=
  ∃ us, ts = us ++ rest ∧ Phrase level us e es

/-- What is read of the level, and what is read behind a left operand of it, the phrase `us`. -/
def ReadsPhrases (last : Token) (level : Level) (ts : List Token) : Prop :=
  (readLevel last level ts).reading.Meets (PhraseOff level ts) (Halts last ts) ∧
  (level.isBinary = true → ∀ us left es, Phrase level us left es →
    ((readMore last level left ts).reading.after es).Meets (PhraseOff level (us ++ ts))
      (Halts last (us ++ ts)))

theorem readMore_meets {last : Token} {level : Level} (hlevel : level.isBinary = true)
    {ts us : List Token} {left : Expr} {es : List ParseError}
    (ih : ∀ level us, us.length < ts.length → ReadsPhrases last level us)
    (h : Phrase level us left es) :
    ((readMore last level left ts).reading.after es).Meets (PhraseOff level (us ++ ts))
      (Halts last (us ++ ts)) := by
  cases ts with
  | nil =>
    rw [reading_readMore_nil]
    exact ⟨us, rfl, by rwa [List.append_nil]⟩
  | cons op ts =>
    rw [reading_readMore_cons]
    split
    · next hop =>
      refine (ih level.operand ts (length_lt_cons op ts)).1.bind_after (fun rest fs hstuck => ?_) ?_
      · simpa using hstuck.after (h.taken.concat op)
      · rintro right rest fs hread ⟨vs, rfl, hright⟩
        have hrest := (ih level rest (Nat.lt_succ_of_lt (Bounded.length_lt_of_done hread))).2 hlevel
          _ _ _ (h.binary hlevel hop hright)
        simpa using hrest
    · exact ⟨us, rfl, by rwa [List.append_nil]⟩

theorem readsPhrases (last : Token) (level : Level) (ts : List Token) :
    ReadsPhrases last level ts := by
  induction level, ts using Level.readers_induction with
  | primary ts ih =>
    refine ⟨?_, fun hlevel => by cases hlevel⟩
    cases ts with
    | nil =>
      rw [reading_readLevel_primary_nil]
      exact .here (by decide)
    | cons t ts =>
      rw [reading_readLevel_primary_cons]
      split
      · next e he => exact ⟨[t], rfl, .atom he⟩
      · split
        · next hleft =>
          refine (ih .assignment ts (length_lt_cons t ts)).1.bind (fun rest es hstuck => ?_) ?_
          · exact hstuck.after (.tokens [t])
          rintro inner rest es - ⟨us, rfl, hinner⟩
          refine (expect_meets last .rightParen rest (by decide)).bind_after
            (fun rest' fs hstuck => ?_) ?_
          · exact hstuck.after hinner.taken.token
          · rintro right rest - - ⟨rfl, hright, rfl⟩
            exact ⟨t :: (us ++ [right]), by simp, by simpa using .grouping hleft hinner hright⟩
        · exact .here (by decide)
  | unary ts ih hprimary =>
    refine ⟨?_, fun hlevel => by cases hlevel⟩
    cases ts with
    | nil =>
      rw [reading_readLevel_unary_nil, reading_readLevel_primary_nil]
      exact .here (by decide)
    | cons op ts =>
      rw [reading_readLevel_unary_cons]
      split
      · next hop =>
        refine (ih .unary ts (length_lt_cons op ts)).1.bind (fun rest es hstuck => ?_) ?_
        · exact hstuck.after (.tokens [op])
        · rintro right rest es - ⟨us, rfl, hright⟩
          exact ⟨op :: us, rfl, by simpa using hright.unary hop⟩
      · refine hprimary.1.mono ?_
        rintro e rest es ⟨us, hus, h⟩
        exact ⟨us, hus, h.primary⟩
  | binary level ts hlevel ih hoperand =>
    refine ⟨?_, fun _ us left es h => readMore_meets hlevel ih h⟩
    rw [reading_readLevel_binary last hlevel]
    refine hoperand.1.bind (fun _ _ h => h) ?_
    rintro left rest es hread ⟨us, rfl, hleft⟩
    exact (ih level rest (Bounded.length_lt_of_done hread)).2 hlevel _ _ _ (.operand hlevel hleft)
  | assignment ts ih hequality =>
    refine ⟨?_, fun hlevel => by cases hlevel⟩
    rw [reading_readLevel_assignment]
    refine hequality.1.bind (fun _ _ h => h) ?_
    rintro target rest es hread ⟨us, rfl, htarget⟩
    cases rest with
    | nil => exact ⟨us, rfl, by simpa using htarget.equality⟩
    | cons t rest =>
      dsimp only
      split
      · next hequals =>
        have hlength := length_lt_of_cons (Bounded.length_lt_of_done hread)
        refine (ih .assignment rest hlength).1.bind_after (fun rest' fs hstuck => ?_) ?_
        · simpa using hstuck.after (htarget.taken.concat t)
        rintro value rest' fs - ⟨vs, rfl, hvalue⟩
        have happ : us ++ t :: (vs ++ rest') = us ++ t :: vs ++ rest' := by simp
        split
        · next name => exact ⟨_, happ, by simpa using htarget.assign hequals hvalue⟩
        · next hne => exact ⟨_, happ, htarget.invalidTarget hne hequals hvalue⟩
      · exact ⟨us, rfl, by simpa using htarget.equality⟩

/-- What a reader reads is a phrase of its level, and where it is stuck it raises an error. -/
theorem readLevel_meets (last : Token) (level : Level) (ts : List Token) :
    (readLevel last level ts).reading.Meets (PhraseOff level ts) (Halts last ts) :=
  (readsPhrases last level ts).1

/-! ## Phrases without errors -/

namespace BinaryRule

variable {level next : Level} {ops : List Kind}

theorem isBinary (h : BinaryRule level next ops) : level.isBinary = true := by
  cases h <;> rfl

theorem operand_eq (h : BinaryRule level next ops) : level.operand = next := by
  cases h <;> rfl

theorem mem_iff (h : BinaryRule level next ops) {kind : Kind} :
    kind ∈ ops ↔ level.hasOperator kind = true := by
  cases h <;> cases kind <;> decide

theorem of_isBinary (h : level.isBinary = true) : ∃ ops, BinaryRule level level.operand ops := by
  cases level with
  | equality => exact ⟨_, .equality⟩
  | comparison => exact ⟨_, .comparison⟩
  | term => exact ⟨_, .term⟩
  | factor => exact ⟨_, .factor⟩
  | assignment | unary | primary => cases h

end BinaryRule

theorem Level.mem_unary_iff {kind : Kind} :
    kind ∈ [Kind.bang, Kind.minus] ↔ Level.unary.hasOperator kind = true := by
  cases kind <;> decide

theorem Derives.of_atom? {t : Token} {e : Expr} (h : t.atom? = some e) :
    Derives .primary [t] e := by
  unfold Token.atom? at h
  split at h <;> cases h
  · exact .kwFalse ‹_›
  · exact .kwTrue ‹_›
  · exact .kwNil ‹_›
  · exact .number ‹_›
  · exact .string ‹_›
  · exact .identifier ‹_›

theorem Derives.phrase {level : Level} {ts : List Token} {e : Expr} (h : Derives level ts e) :
    Phrase level ts e [] := by
  induction h with
  | assign hname hequals _ ih =>
    have htarget : Phrase .primary [_] (.variable _) [] := .atom (by rw [Token.atom?, hname])
    exact htarget.equality_of_primary.assign hequals ih
  | equality _ ih => exact ih.equality
  | operand hrule _ ih => exact .operand hrule.isBinary (hrule.operand_eq ▸ ih)
  | binary hrule _ hop _ ih₁ ih₂ =>
    exact ih₁.binary hrule.isBinary (hrule.mem_iff.mp hop) (hrule.operand_eq ▸ ih₂)
  | unary hop _ ih => exact ih.unary (Level.mem_unary_iff.mp hop)
  | primary _ ih => exact ih.primary
  | kwTrue h | kwFalse h | kwNil h | number h | string h | identifier h =>
    exact .atom (by rw [Token.atom?, h])
  | grouping hleft _ hright ih => exact ih.grouping hleft hright

/-- A phrase without errors is an expression of the grammar. -/
theorem Phrase.derives {level : Level} {ts : List Token} {e : Expr} (h : Phrase level ts e []) :
    Derives level ts e := by
  generalize hes : ([] : List ParseError) = es at h
  induction h with
  | assign htarget hequals _ ih₁ ih₂ =>
    obtain ⟨rfl, hname, rfl⟩ := htarget.eq_singleton_of_variable
    exact .assign hname hequals (ih₂ hes)
  | invalidTarget => simp at hes
  | equality _ ih => exact .equality (ih hes)
  | operand hlevel _ ih =>
    obtain ⟨ops, hrule⟩ := BinaryRule.of_isBinary hlevel
    exact .operand hrule (ih hes)
  | binary hlevel _ hop _ ih₁ ih₂ =>
    obtain ⟨ops, hrule⟩ := BinaryRule.of_isBinary hlevel
    obtain ⟨hes₁, hes₂⟩ := List.append_eq_nil_iff.mp hes.symm
    exact .binary hrule (ih₁ hes₁.symm) (hrule.mem_iff.mpr hop) (ih₂ hes₂.symm)
  | unary hop _ ih => exact .unary (Level.mem_unary_iff.mpr hop) (ih hes)
  | primary _ ih => exact .primary (ih hes)
  | atom h => exact .of_atom? h
  | grouping hleft _ hright ih => exact .grouping hleft (ih hes) hright

end LoxLang
