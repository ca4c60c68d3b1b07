import LoxLang.Proofs.Recovery.Clause

/-! # A missing semicolon in front of a keyword

A keyword that begins a statement ends what is read in front of it, just as the end of the list
does (`readSentence_runsInto`). So a statement without its semicolon is stuck, either inside of it
or at the keyword. In the first case reading resumes at the keyword, and nothing behind is lost. In
the second case the keyword is the token that recovery always discards, and the statement that it
begins is lost with its errors (`parse_append_keyword`). -/

namespace LoxLang

/-! ## Keywords that begin statements -/

theorem Kind.ne_of_startsStatement {kind other : Kind} (h : kind.startsStatement = true)
    (hother : other.startsStatement = false) : kind ≠ other := by
  rintro rfl
  rw [h] at hother
  cases hother

theorem Kind.bounds_of_startsStatement {kind : Kind} (h : kind.startsStatement = true) :
    kind.bounds = true := by
  rw [bounds, h, Bool.or_true]

theorem Token.atom?_of_startsStatement {t : Token} (h : t.kind.startsStatement = true) :
    t.atom? = none := by
  cases hatom : t.atom? with
  | none => rfl
  | some e =>
    have hbounds := Token.bounds_of_atom? hatom
    rw [Kind.bounds_of_startsStatement h] at hbounds
    cases hbounds

theorem Level.hasOperator_of_startsStatement {kind : Kind} (h : kind.startsStatement = true)
    (level : Level) : ¬level.hasOperator kind = true := by
  intro hop
  have hbounds := Level.bounds_of_hasOperator hop
  rw [Kind.bounds_of_startsStatement h] at hbounds
  cases hbounds

/-! ## Readings that run into a keyword -/

namespace Reading

variable {α β : Type} {last keyword : Token} {tail : List Token}

/-- The second reading, of a list that goes on with a keyword, is the first one, of the list alone;
but what the first one finds at the end of the list, the second one finds at the keyword. -/
inductive RunsInto (last keyword : Token) (tail : List Token) : Reading α → Reading α → Prop
  | done {value : α} {rest : List Token} {es : List ParseError} :
    RunsInto last keyword tail (.done value rest es) (.done value (rest ++ keyword :: tail) es)
  | inside {t : Token} {rest : List Token} {es : List ParseError} :
    RunsInto last keyword tail (.stuck (t :: rest) es) (.stuck (t :: rest ++ keyword :: tail) es)
  | atEnd (es : List ParseError) {cause : ParseCause} :
    RunsInto last keyword tail (.stuck [] (es ++ [⟨cause, last⟩]))
      (.stuck (keyword :: tail) (es ++ [⟨cause, keyword⟩]))

namespace RunsInto

variable {r r' : Reading α}

theorem after (h : RunsInto last keyword tail r r') (es : List ParseError) :
    RunsInto last keyword tail (r.after es) (r'.after es) := by
  cases h with
  | done => exact .done
  | inside => exact .inside
  | atEnd =>
    simp only [Reading.after, ← List.append_assoc]
    exact .atEnd _

theorem bind {next next' : α → List Token → Reading β} (h : RunsInto last keyword tail r r')
    (hnext : ∀ value rest es, r = .done value rest es →
      RunsInto last keyword tail (next value rest) (next' value (rest ++ keyword :: tail))) :
    RunsInto last keyword tail (r.bind next) (r'.bind next') := by
  cases h with
  | @done value rest es => exact (hnext value rest es rfl).after es
  | inside => exact .inside
  | atEnd => exact .atEnd _

end RunsInto
end Reading

open Reading (RunsInto)

section

variable {last last' keyword : Token} {tail : List Token}

theorem expect_runsInto {kind : Kind} {cause : ParseCause} (hkind : keyword.kind ≠ kind)
    (ts : List Token) :
    RunsInto last keyword tail (expect last kind cause ts).reading
      (expect last' kind cause (ts ++ keyword :: tail)).reading := by
  cases ts with
  | nil =>
    rw [reading_expect_nil, List.nil_append, reading_expect_cons, if_neg hkind]
    exact .atEnd []
  | cons t ts =>
    rw [List.cons_append, reading_expect_cons, reading_expect_cons]
    split
    · exact .done
    · exact .inside

/-! ## Expressions -/

/-- The reader of the level runs into the keyword, and so does what it reads behind a left
operand. -/
def ReadsInto (last last' keyword : Token) (tail : List Token) (level : Level) (ts : List Token) :
    Prop :=
  RunsInto last keyword tail (readLevel last level ts).reading
      (readLevel last' level (ts ++ keyword :: tail)).reading ∧
    ∀ left, RunsInto last keyword tail (readMore last level left ts).reading
      (readMore last' level left (ts ++ keyword :: tail)).reading

variable (hkeyword : keyword.kind.startsStatement = true)

include hkeyword

theorem readMore_runsInto {level : Level} {ts : List Token}
    (ih : ∀ level us, us.length < ts.length → ReadsInto last last' keyword tail level us)
    (left : Expr) :
    RunsInto last keyword tail (readMore last level left ts).reading
      (readMore last' level left (ts ++ keyword :: tail)).reading := by
  cases ts with
  | nil =>
    rw [reading_readMore_nil, List.nil_append, reading_readMore_cons,
      if_neg (Level.hasOperator_of_startsStatement hkeyword level)]
    exact .done
  | cons op ts =>
    rw [List.cons_append, reading_readMore_cons, reading_readMore_cons]
    split
    · refine (ih level.operand ts (length_lt_cons op ts)).1.bind fun right rest es hread => ?_
      exact (ih level rest (Nat.lt_succ_of_lt (Bounded.length_lt_of_done hread))).2 _
    · exact .done

theorem readsInto (level : Level) (ts : List Token) :
    ReadsInto last last' keyword tail level ts := by
  induction level, ts using Level.readers_induction with
  | primary ts ih =>
    refine ⟨?_, readMore_runsInto hkeyword ih⟩
    cases ts with
    | nil =>
      rw [reading_readLevel_primary_nil, List.nil_append, reading_readLevel_primary_cons,
        Token.atom?_of_startsStatement hkeyword]
      dsimp only
      rw [if_neg (Kind.ne_of_startsStatement hkeyword rfl)]
      exact .atEnd []
    | cons t ts =>
      rw [List.cons_append, reading_readLevel_primary_cons, reading_readLevel_primary_cons]
      split
      · exact .done
      split
      · refine (ih .assignment ts (length_lt_cons t ts)).1.bind fun inner rest es _ => ?_
        refine (expect_runsInto ?_ rest).bind fun _ _ _ _ => .done
        exact Kind.ne_of_startsStatement hkeyword rfl
      · exact .inside
  | unary ts ih hprimary =>
    refine ⟨?_, readMore_runsInto hkeyword ih⟩
    cases ts with
    | nil =>
      rw [reading_readLevel_unary_nil, List.nil_append, reading_readLevel_unary_cons,
        if_neg (Level.hasOperator_of_startsStatement hkeyword _)]
      exact hprimary.1
    | cons op ts =>
      rw [List.cons_append, reading_readLevel_unary_cons, reading_readLevel_unary_cons]
      split
      · exact (ih .unary ts (length_lt_cons op ts)).1.bind fun _ _ _ _ => .done
      · exact hprimary.1
  | binary level ts hlevel ih hoperand =>
    refine ⟨?_, readMore_runsInto hkeyword ih⟩
    rw [reading_readLevel_binary last hlevel, reading_readLevel_binary last' hlevel]
    refine hoperand.1.bind fun left rest es hread => ?_
    exact (ih level rest (Bounded.length_lt_of_done hread)).2 _
  | assignment ts ih hequality =>
    refine ⟨?_, readMore_runsInto hkeyword ih⟩
    rw [reading_readLevel_assignment, reading_readLevel_assignment]
    refine hequality.1.bind fun target rest es hread => ?_
    have hlength := Bounded.length_lt_of_done hread
    cases rest with
    | nil =>
      dsimp only [List.nil_append]
      rw [if_neg (Kind.ne_of_startsStatement hkeyword rfl)]
      exact .done
    | cons t rest =>
      dsimp only [List.cons_append]
      split
      · refine (ih .assignment rest (length_lt_of_cons hlength)).1.bind fun value rest es _ => ?_
        split <;> exact .done
      · exact .done

/-! ## Sentences -/

theorem expectSemicolon_runsInto {cause : ParseCause} {s : Stmt} (ts : List Token) :
    RunsInto last keyword tail
      ((expect last .semicolon cause ts).reading.bind fun _ rest => .done s rest [])
      ((expect last' .semicolon cause (ts ++ keyword :: tail)).reading.bind fun _ rest =>
        .done s rest []) :=
  (expect_runsInto (Kind.ne_of_startsStatement hkeyword rfl) ts).bind fun _ _ _ _ => .done

/-- An expression and its semicolon. -/
theorem closed_runsInto {cause : ParseCause} {make : Expr → Stmt} (ts : List Token) :
    RunsInto last keyword tail
      ((readLevel last .assignment ts).reading.bind fun e rest =>
        (expect last .semicolon cause rest).reading.bind fun _ rest => .done (make e) rest [])
      ((readLevel last' .assignment (ts ++ keyword :: tail)).reading.bind fun e rest =>
        (expect last' .semicolon cause rest).reading.bind fun _ rest =>
          .done (make e) rest []) :=
  (readsInto hkeyword .assignment ts).1.bind fun _ rest _ _ =>
    expectSemicolon_runsInto hkeyword rest

theorem readVariable_runsInto (ts : List Token) :
    RunsInto last keyword tail (readVariable last ts).reading
      (readVariable last' (ts ++ keyword :: tail)).reading := by
  rw [reading_readVariable, reading_readVariable]
  have hname : keyword.kind ≠ .identifier := Kind.ne_of_startsStatement hkeyword rfl
  refine (expect_runsInto hname ts).bind fun name rest es _ => ?_
  cases rest with
  | nil =>
    dsimp only [List.nil_append]
    rw [if_neg (Kind.ne_of_startsStatement hkeyword rfl)]
    exact expectSemicolon_runsInto hkeyword []
  | cons t rest =>
    dsimp only [List.cons_append]
    split
    · exact closed_runsInto hkeyword rest
    · exact expectSemicolon_runsInto hkeyword (t :: rest)

theorem readSentence_runsInto (t : Token) (ts : List Token) :
    RunsInto last keyword tail (readSentence last t ts)
      (readSentence last' t (ts ++ keyword :: tail)) := by
  unfold readSentence
  split
  · exact readVariable_runsInto hkeyword ts
  split
  · rw [reading_readPrint, reading_readPrint]
    exact closed_runsInto hkeyword ts
  · rw [reading_readExpression, reading_readExpression, ← List.cons_append]
    exact closed_runsInto hkeyword (t :: ts)

end

/-! ## Statements without a semicolon -/

/-- A statement, right or wrong, whose semicolon is missing. -/
structure Unclosed (ts : List Token) : Prop where
  ne_nil : ts ≠ []
  ne_semicolon : ∀ t ∈ ts, t.kind ≠ .semicolon
  ne_eof : ∀ t ∈ ts, t.kind ≠ .eof
  not_startsStatement : ∀ t ∈ ts.tail, t.kind.startsStatement = false
  head_ne_brace : ∀ t ∈ ts.head?, t.kind ≠ .leftBrace ∧ t.kind ≠ .rightBrace

/-- Reading resumes at the end of the list, or at the keyword there. -/
theorem resumeBehind_append_of_starts {us tail : List Token}
    (htail : ∀ t ∈ tail.head?, t.kind.startsStatement = true)
    (hsemicolon : ∀ t ∈ us, t.kind ≠ .semicolon)
    (hstart : ∀ t ∈ us, t.kind.startsStatement = false) {previous : Token}
    (hprevious : previous.kind ≠ .semicolon) : resumeBehind previous (us ++ tail) = tail := by
  induction us generalizing previous with
  | nil =>
    cases tail with
    | nil => rfl
    | cons t tail => rw [List.nil_append, resumeBehind, if_pos (.inr (htail t rfl))]
  | cons t us ih =>
    rw [List.forall_mem_cons] at hsemicolon hstart
    have hne : ¬ (previous.kind = .semicolon ∨ t.kind.startsStatement = true) := by
      rw [hstart.1]
      exact not_or.mpr ⟨hprevious, Bool.false_ne_true⟩
    rw [List.cons_append, resumeBehind, if_neg hne]
    exact ih hsemicolon.2 hstart.2 hsemicolon.1

namespace Unclosed

variable {t : Token} {ts rest tail : List Token} {es : List ParseError}

/-- Wherever the reader is stuck inside of the statement, nothing behind it is skipped. -/
theorem resume_append (h : Unclosed ts) (hrest : t :: rest <:+ ts)
    (htail : ∀ t ∈ tail.head?, t.kind.startsStatement = true) :
    resume (t :: rest ++ tail) = tail := by
  have hsemicolon : ∀ u ∈ t :: rest, u.kind ≠ .semicolon := fun u hu =>
    h.ne_semicolon u (hrest.mem hu)
  rw [List.forall_mem_cons] at hsemicolon
  refine resumeBehind_append_of_starts htail hsemicolon.2 (fun u hu => ?_) hsemicolon.1
  -- the token `u` stands behind `t`, so it is not the first one
  refine h.not_startsStatement u ?_
  obtain ⟨vs, rfl⟩ := hrest
  cases vs with
  | nil => exact hu
  | cons v vs => exact List.mem_append_right _ (List.mem_cons_of_mem _ hu)

theorem resume_eq_nil (h : Unclosed ts) (hrest : rest <:+ ts) : resume rest = [] := by
  cases rest with
  | nil => rfl
  | cons t rest =>
    have hresume : resume (t :: rest ++ []) = [] := h.resume_append hrest nofun
    rwa [List.append_nil] at hresume

/-- Without its semicolon, a statement is not read. -/
theorem readSentence_ne_done (h : Unclosed (t :: ts)) (last : Token) (s : Stmt) :
    readSentence last t ts ≠ .done s rest es := by
  intro hread
  have hmeets := readSentence_meets last t ts
  rw [hread] at hmeets
  obtain ⟨us, hus, hs⟩ := hmeets
  obtain ⟨⟨vs, close, rfl, hclose⟩, -⟩ := hs.exists_close
  refine h.ne_semicolon close ?_ hclose
  rw [hus]
  simp

end Unclosed

theorem kind_endMark (ts : List Token) : (endMark ts).kind = .eof := by
  unfold endMark
  cases hfind : ts.find? (·.kind = .eof) with
  | none => rfl
  | some t => simpa using List.find?_some hfind

theorem StuckAt.raised_last {last : Token} {ts rest : List Token} {es : List ParseError}
    {e : ParseError} (h : StuckAt last ts rest (es ++ [e])) : e.Raised := by
  obtain ⟨-, fs, cause, heq, -, hcause⟩ := h
  obtain ⟨-, he⟩ := List.append_inj' heq rfl
  cases he
  exact hcause

/-- A declaration that is stuck is left out, and reading resumes. -/
theorem readProgram_of_stuck {last t : Token} {ts rest : List Token} {es : List ParseError}
    (ht : t.kind ≠ .leftBrace) (h : readSentence last t ts = .stuck rest es) :
    readProgram last (t :: ts) = ⟨[], es⟩ ++ readProgram last (resume rest) := by
  rw [readProgram_cons, readDeclaration_of_ne_leftBrace last ht, h]
  rfl

/-- A statement without its semicolon is stuck inside of it, whatever follows, or at its end, which
may be a keyword. -/
theorem Unclosed.readSentence_cases {t keyword : Token} {ts : List Token} (h : Unclosed (t :: ts))
    (hkeyword : keyword.kind.startsStatement = true) (last last' : Token) (tail : List Token) :
    (∃ u rest es, readSentence last t ts = .stuck (u :: rest) es ∧
      readSentence last' t (ts ++ keyword :: tail) = .stuck (u :: rest ++ keyword :: tail) es) ∨
    ∃ es cause, readSentence last t ts = .stuck [] (es ++ [⟨cause, last⟩]) ∧
      readSentence last' t (ts ++ keyword :: tail) =
        .stuck (keyword :: tail) (es ++ [⟨cause, keyword⟩]) := by
  have hinto : RunsInto last keyword tail (readSentence last t ts)
      (readSentence last' t (ts ++ keyword :: tail)) := readSentence_runsInto hkeyword t ts
  generalize hread : readSentence last t ts = r at hinto
  generalize readSentence last' t (ts ++ keyword :: tail) = r' at hinto
  cases hinto with
  | done => exact absurd hread (h.readSentence_ne_done last _)
  | @inside u rest es => exact .inl ⟨u, rest, es, rfl, rfl⟩
  | @atEnd es cause => exact .inr ⟨es, cause, rfl, rfl⟩

/-- Alone, it gives no statement and the errors that were found. -/
theorem Unclosed.parse_eq_of_stuck {t : Token} {ts rest : List Token} {es : List ParseError}
    (h : Unclosed (t :: ts)) (hread : readSentence (endMark (t :: ts)) t ts = .stuck rest es) :
    parse (t :: ts) = ⟨[], es⟩ := by
  have hmeets := readSentence_meets (endMark (t :: ts)) t ts
  rw [hread] at hmeets
  have hparse := parse_append_eq h.ne_eof []
  rw [List.takeWhile_nil, List.append_nil,
    readProgram_of_stuck (h.head_ne_brace t rfl).1 hread, h.resume_eq_nil hmeets.suffix,
    readProgram_nil] at hparse
  rw [hparse, Parsed.append_def, List.append_nil, List.append_nil]

/-- In front of a keyword, what is parsed depends on where the error is found that is raised for the
statement. -/
theorem Unclosed.parse_cases {ts : List Token} (h : Unclosed ts) {keyword : Token}
    (hkeyword : keyword.kind.startsStatement = true) (tail : List Token) :
    ∃ es e, e.Raised ∧ parse ts = ⟨[], es ++ [e]⟩ ∧
      ((e.token.kind ≠ .eof ∧ parse (ts ++ keyword :: tail) = parse ts ++ parse (keyword :: tail)) ∨
        e.token.kind = .eof ∧ parse (ts ++ keyword :: tail) = ⟨[], es ++ [⟨e.cause, keyword⟩]⟩ ++
          readProgram (endMark (keyword :: tail))
            (resume ((keyword :: tail).takeWhile (·.kind ≠ .eof)))) := by
  obtain ⟨t, us, rfl⟩ := List.exists_cons_of_ne_nil h.ne_nil
  have ht := (h.head_ne_brace t rfl).1
  have hboth := parse_append_eq h.ne_eof (keyword :: tail)
  have hnext := parse_eq_readProgram_endMark h.ne_eof (keyword :: tail)
  rw [endMark_append h.ne_eof] at hboth hnext
  have hne : keyword.kind ≠ .eof := Kind.ne_of_startsStatement hkeyword rfl
  rw [List.takeWhile_cons_of_pos (by simpa using hne)] at hboth hnext ⊢
  generalize tail.takeWhile (·.kind ≠ .eof) = body at hboth hnext ⊢
  have hmeets := readSentence_meets (endMark (t :: us)) t us
  rcases h.readSentence_cases hkeyword (endMark (t :: us)) (endMark (keyword :: tail)) body with
    ⟨u, rest, es, hread, hread'⟩ | ⟨es, cause, hread, hread'⟩
  · have halone := h.parse_eq_of_stuck hread
    have hstuck := hboth.trans (readProgram_of_stuck ht hread')
    rw [hread] at hmeets
    obtain ⟨hsuffix, fs, cause, rfl, -, hcause⟩ := hmeets
    have hresume : resume (u :: rest ++ keyword :: body) = keyword :: body :=
      h.resume_append hsuffix (by rintro _ ⟨⟩; exact hkeyword)
    refine ⟨fs, ⟨cause, u⟩, hcause, halone, .inl ⟨?_, ?_⟩⟩
    · exact h.ne_eof u (hsuffix.mem List.mem_cons_self)
    · rw [hstuck, hresume, ← hnext, halone]
  · have hstuck := hboth.trans (readProgram_of_stuck ht hread')
    rw [hread] at hmeets
    refine ⟨es, ⟨cause, endMark (t :: us)⟩, hmeets.raised_last, h.parse_eq_of_stuck hread, ?_⟩
    exact .inr ⟨kind_endMark _, hstuck⟩

/-- A clause whose first token is discarded is lost as a whole. -/
theorem SimpleClause.readProgram_resume (c : SimpleClause) (rest : List Token) :
    readProgram (endMark (c.tokens ++ rest))
      (resume ((c.tokens ++ rest).takeWhile (·.kind ≠ .eof))) = parse rest := by
  have htake : (c.tokens ++ rest).takeWhile (·.kind ≠ .eof) =
      c.tokens ++ rest.takeWhile (·.kind ≠ .eof) :=
    List.takeWhile_append_of_pos (by simpa using c.tokens_ne_eof)
  have hne : c.tokens ≠ [] := List.append_ne_nil_of_right_ne_nil _ (List.cons_ne_nil _ _)
  rw [htake, c.resume_append (List.suffix_refl _) hne]
  exact (parse_eq_readProgram_endMark c.tokens_ne_eof rest).symm

/-- A statement whose semicolon is missing, in front of a keyword that begins a statement. The
parser raises an error for it, which it finds inside of the statement or at its end. If inside, then
all that follows is parsed as it would be alone. If at the end, then the error is at the keyword,
and reading resumes behind the keyword: if the keyword begins a clause, it is lost as a whole. -/
theorem parse_append_keyword (ts : List Token) (hts : Unclosed ts) (keyword : Token)
    (hkeyword : keyword.kind.startsStatement = true) (tail : List Token) :
    ∃ es e, e.Raised ∧ parse ts = ⟨[], es ++ [e]⟩ ∧
      (e.token.kind ≠ .eof → parse (ts ++ keyword :: tail) = parse ts ++ parse (keyword :: tail)) ∧
      (e.token.kind = .eof →
        parse (ts ++ keyword :: tail) = ⟨[], es ++ [⟨e.cause, keyword⟩]⟩ ++
          readProgram (endMark (keyword :: tail))
            (resume ((keyword :: tail).takeWhile (·.kind ≠ .eof))) ∧
        ∀ (c : SimpleClause) rest, keyword :: tail = c.tokens ++ rest →
          parse (ts ++ keyword :: tail) = ⟨[], es ++ [⟨e.cause, keyword⟩]⟩ ++ parse rest) := by
  obtain ⟨es, e, hraised, halone, ⟨hkind, hparse⟩ | ⟨hkind, hparse⟩⟩ :=
    hts.parse_cases hkeyword tail
  · exact ⟨es, e, hraised, halone, fun _ => hparse, fun heof => absurd heof hkind⟩
  · refine ⟨es, e, hraised, halone, fun hne => absurd hkind hne, fun _ => ⟨hparse, ?_⟩⟩
    intro c rest hclause
    rw [hparse, hclause, c.readProgram_resume]

theorem unclosed_name : Unclosed [Token.plain .identifier "a"] where
  ne_nil := by decide
  ne_semicolon := by decide
  ne_eof := by decide
  not_startsStatement := by decide
  head_ne_brace := by decide

/-- The statement `print b;` -/
def printClause : SimpleClause where
  body := [.plain .kwPrint "print", .plain .identifier "b"]
  close := .plain .semicolon ";"
  body_ne_semicolon := by decide
  body_ne_eof := by decide
  not_startsStatement := by decide
  head_ne_brace := by decide
  close_kind := rfl

/-- In `a print b;` the semicolon is missing in front of the keyword, and `print b;` is lost. -/
theorem parse_name_append_printClause :
    let name : Token := .plain .identifier "a"
    let print : Token := .plain .kwPrint "print"
    Unclosed [name] ∧ print.kind.startsStatement = true ∧
    parse [name] = ⟨[], [⟨.expectSemicolonAfterExpression, .endAt 1⟩]⟩ ∧
    parse ([name] ++ printClause.tokens) = ⟨[], [⟨.expectSemicolonAfterExpression, print⟩]⟩ := by
  intro name print
  have hname : parse [name] = ⟨[], [⟨.expectSemicolonAfterExpression, .endAt 1⟩]⟩ := by cbv
  obtain ⟨es, e, -, halone, -, hend⟩ := parse_append_keyword [name] unclosed_name print rfl
    [.plain .identifier "b", .plain .semicolon ";"]
  have herrors : es ++ [e] = [] ++ [⟨.expectSemicolonAfterExpression, .endAt 1⟩] := by
    rw [hname] at halone
    exact (congrArg Parsed.errors halone).symm
  obtain ⟨rfl, he⟩ := List.append_inj' herrors rfl
  cases he
  have hlost := (hend rfl).2 printClause [] rfl
  refine ⟨unclosed_name, rfl, hname, hlost.trans ?_⟩
  cbv

/-- A missing semicolon in front of `var` or `print` may make the parser discard the statement that
the keyword begins. -/
theorem not_resumes_at_keyword :
    ¬∀ (ts : List Token) (keyword : Token) (tail : List Token), Unclosed ts →
      keyword.kind = .kwVar ∨ keyword.kind = .kwPrint →
      (parse (ts ++ keyword :: tail)).statements = (parse (keyword :: tail)).statements ∧
      ∃ es, es ≠ [] ∧
        (parse (ts ++ keyword :: tail)).errors = es ++ (parse (keyword :: tail)).errors := by
  intro h
  let name : Token := .plain .identifier "a"
  let print : Token := .plain .kwPrint "print"
  let tail : List Token := [.plain .identifier "b", .plain .semicolon ";"]
  have hkept : (parse (print :: tail)).statements =
      [.print (.variable (.plain .identifier "b"))] := by cbv
  have hlost : (parse ([name] ++ print :: tail)).statements = [] := by cbv
  obtain ⟨hstatements, -⟩ := h [name] print tail unclosed_name (.inr rfl)
  rw [hkept, hlost] at hstatements
  cases hstatements

end LoxLang
