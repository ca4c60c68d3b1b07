import LoxLang.Proofs.Recovery.Local

/-! # Recovery is modular

A *clause* is a stretch of tokens that recovery does not leave: any tokens up to a semicolon, none
of which but the first begins a statement, or clauses between braces. A clause need not be correct.
A program that begins with clauses is parsed clause by clause, and what comes of one depends on
nothing around it (`parse_tokensAll_append`). -/

namespace LoxLang

/-- A semicolon and the tokens in front of it. -/
structure SimpleClause where
  body : List Token
  close : Token
  body_ne_semicolon : ∀ t ∈ body, t.kind ≠ .semicolon
  body_ne_eof : ∀ t ∈ body, t.kind ≠ .eof
  not_startsStatement : ∀ t ∈ body.tail, t.kind.startsStatement = false
  head_ne_brace : ∀ t ∈ body.head?, t.kind ≠ .leftBrace ∧ t.kind ≠ .rightBrace
  close_kind : close.kind = .semicolon

/-- Clauses, nested to any depth. -/
inductive Clause where
  | simple (clause : SimpleClause)
  | block (left : Token) (clauses : List Clause) (right : Token)
    (left_kind : left.kind = .leftBrace) (right_kind : right.kind = .rightBrace)

def SimpleClause.tokens (c : SimpleClause) : List Token := c.body ++ [c.close]

mutual

def Clause.tokens : Clause → List Token
  | .simple c => c.tokens
  | .block left cs right _ _ => left :: (Clause.tokensAll cs ++ [right])

def Clause.tokensAll : List Clause → List Token
  | [] => []
  | c :: cs => c.tokens ++ Clause.tokensAll cs

end

instance : Append Parsed where
  append p q := ⟨p.statements ++ q.statements, p.errors ++ q.errors⟩

theorem Parsed.append_def (p q : Parsed) :
    p ++ q = ⟨p.statements ++ q.statements, p.errors ++ q.errors⟩ :=
  rfl

mutual

/-- What a clause is parsed as on its own. -/
def Clause.parsed : Clause → Parsed
  | .simple c => parse c.tokens
  | .block _ cs _ _ _ => ⟨[.block (Clause.parsedAll cs).statements], (Clause.parsedAll cs).errors⟩

/-- What clauses are parsed as, one after the other. -/
def Clause.parsedAll : List Clause → Parsed
  | [] => ⟨[], []⟩
  | c :: cs => c.parsed ++ Clause.parsedAll cs

end

/-- The error made the reader give up the statement. -/
def ParseError.Raised (e : ParseError) : Prop := e.cause ≠ .invalidTarget

/-! ## Where reading resumes -/

theorem resumeBehind_semicolon {close : Token} (hclose : close.kind = .semicolon)
    (tail : List Token) : resumeBehind close tail = tail := by
  cases tail with
  | nil => rfl
  | cons t tail => rw [resumeBehind, if_pos (.inl hclose)]

theorem resumeBehind_append {close : Token} (hclose : close.kind = .semicolon) {us : List Token}
    (hsemicolon : ∀ t ∈ us, t.kind ≠ .semicolon)
    (hstart : ∀ t ∈ us, t.kind.startsStatement = false) {previous : Token}
    (hprevious : previous.kind ≠ .semicolon) (tail : List Token) :
    resumeBehind previous (us ++ close :: tail) = tail := by
  induction us generalizing previous with
  | nil =>
    have hne : ¬ (previous.kind = .semicolon ∨ close.kind.startsStatement = true) := by
      rw [hclose]
      exact not_or.mpr ⟨hprevious, by decide⟩
    rw [List.nil_append, resumeBehind, if_neg hne]
    exact resumeBehind_semicolon hclose tail
  | cons t us ih =>
    rw [List.forall_mem_cons] at hsemicolon hstart
    have hne : ¬ (previous.kind = .semicolon ∨ t.kind.startsStatement = true) := by
      rw [hstart.1]
      exact not_or.mpr ⟨hprevious, Bool.false_ne_true⟩
    rw [List.cons_append, resumeBehind, if_neg hne]
    exact ih hsemicolon.2 hstart.2 hsemicolon.1

namespace SimpleClause

/-- Wherever the reader is stuck in a clause, reading resumes right behind the clause. -/
theorem resume_append (c : SimpleClause) {rest : List Token} (h : rest <:+ c.tokens)
    (hne : rest ≠ []) (tail : List Token) : resume (rest ++ tail) = tail := by
  obtain ⟨us, rfl, hus⟩ := (List.suffix_concat_iff.mp h).resolve_left hne
  rw [List.append_assoc, List.singleton_append]
  cases us with
  | nil => exact resumeBehind_semicolon c.close_kind tail
  | cons t us =>
    have hbody : ∀ u ∈ t :: us, u.kind ≠ .semicolon :=
      fun u hu => c.body_ne_semicolon u (hus.mem hu)
    rw [List.forall_mem_cons] at hbody
    refine resumeBehind_append c.close_kind hbody.2 (fun u hu => ?_) hbody.1 tail
    -- the token `u` stands behind `t`, so it is not the first one
    refine c.not_startsStatement u ?_
    obtain ⟨vs, hvs⟩ := hus
    rw [← hvs]
    cases vs with
    | nil => exact hu
    | cons v vs => exact List.mem_append_right _ (List.mem_cons_of_mem _ hu)

/-- There is no semicolon in front of the last token of a clause. -/
theorem eq_nil_of_tokens_eq (c : SimpleClause) {us rest : List Token} {t : Token}
    (h : c.tokens = us ++ t :: rest) (ht : t.kind = .semicolon) : rest = [] := by
  rcases List.eq_nil_or_concat rest with rfl | ⟨vs, u, rfl⟩
  · rfl
  · have happ : c.body ++ [c.close] = (us ++ t :: vs) ++ [u] := h.trans (by simp)
    refine absurd ht (c.body_ne_semicolon t ?_)
    rw [(List.append_inj' happ rfl).1]
    exact List.mem_append_right _ List.mem_cons_self

theorem exists_cons (c : SimpleClause) :
    ∃ t us, c.tokens = t :: us ∧ t.kind ≠ .leftBrace ∧ t.kind ≠ .rightBrace ∧
      (HasBound us ∨ t.kind = .semicolon) := by
  cases hbody : c.body with
  | nil =>
    refine ⟨c.close, [], by rw [tokens, hbody]; rfl, ?_, ?_, .inr c.close_kind⟩
    · rw [c.close_kind]
      decide
    · rw [c.close_kind]
      decide
  | cons t us =>
    have ht := c.head_ne_brace t (by rw [hbody]; rfl)
    refine ⟨t, us ++ [c.close], by rw [tokens, hbody]; rfl, ht.1, ht.2, .inl ?_⟩
    exact ⟨c.close, List.mem_append_right _ List.mem_cons_self, by rw [c.close_kind]; rfl⟩

end SimpleClause

theorem Sentence.exists_close {ts : List Token} {s : Stmt} {es : List ParseError}
    (h : Sentence ts s es) :
    (∃ us close, ts = us ++ [close] ∧ close.kind = .semicolon) ∧ OnlyTargets es := by
  cases h with
  | var _ _ hclose => exact ⟨⟨[_, _], _, rfl, hclose⟩, .nil⟩
  | varInit _ _ _ he hclose => exact ⟨⟨_ :: _ :: _ :: _, _, rfl, hclose⟩, he.onlyTargets⟩
  | print _ he hclose => exact ⟨⟨_ :: _, _, rfl, hclose⟩, he.onlyTargets⟩
  | expression he hclose => exact ⟨⟨_, _, rfl, hclose⟩, he.onlyTargets⟩

theorem StuckAt.exists_raised {last : Token} {ts rest : List Token} {es : List ParseError}
    (h : StuckAt last ts rest es) : ∃ e ∈ es, e.Raised := by
  obtain ⟨-, fs, cause, rfl, -, hcause⟩ := h
  exact ⟨_, List.mem_append_right _ List.mem_cons_self, hcause⟩

/-! ## Clause by clause -/

/-- A simple clause is read as one declaration, whatever follows; it is left out if and only if an
error was raised in it. -/
theorem SimpleClause.readAs (c : SimpleClause) :
    ∃ s? es, ReadAs c.tokens s? es ∧ (s? = none ↔ ∃ e ∈ es, e.Raised) := by
  obtain ⟨t, us, hts, hleft, hright, hbound⟩ := c.exists_cons
  have hmeets := readSentence_meets c.close t us
  have hlocal (last : Token) (tail : List Token) :
      Reading.IsLocal tail (readSentence c.close t us) (readSentence last t (us ++ tail)) :=
    readSentence_isLocal hbound
  cases hread : readSentence c.close t us with
  | done s rest es =>
    rw [hread] at hmeets
    obtain ⟨vs, hvs, hs⟩ := hmeets
    obtain ⟨⟨ws, close, hws, hclose⟩, hes⟩ := hs.exists_close
    have hsplit : c.tokens = ws ++ close :: rest := by
      rw [hts, hvs, hws, List.append_assoc, List.singleton_append]
    have hrest := c.eq_nil_of_tokens_eq hsplit hclose
    refine ⟨some s, es, ?_, nofun, ?_⟩
    · rw [hts, hvs, hrest, List.append_nil]
      exact hs.readAs
    · rintro ⟨e, he, hraised⟩
      exact absurd (hes e he) hraised
  | stuck rest es =>
    rw [hread] at hmeets
    refine ⟨none, es, ⟨t, us, hts, hright, fun last tail => ?_⟩, fun _ => ?_, fun _ => rfl⟩
    · obtain ⟨heq, hstuck⟩ := hlocal last tail
      obtain ⟨u, hu, -⟩ := hstuck rest es hread
      have hresume := c.resume_append (hts ▸ hmeets.suffix) (List.ne_nil_of_mem hu) tail
      rw [readDeclaration_of_ne_leftBrace last hleft, heq, hread]
      simp only [Reading.extend, Declaration.ofReading, hresume]
    · exact hmeets.exists_raised

theorem SimpleClause.tokens_ne_eof (c : SimpleClause) : ∀ t ∈ c.tokens, t.kind ≠ .eof := by
  unfold tokens
  rw [List.forall_mem_append, List.forall_mem_singleton, c.close_kind]
  exact ⟨c.body_ne_eof, by decide⟩

/-- The end mark of a list is that of what stands at its end. -/
theorem endMark_append {ts : List Token} (hts : ∀ t ∈ ts, t.kind ≠ .eof) (t : Token)
    (us : List Token) : endMark (ts ++ t :: us) = endMark (t :: us) := by
  have hnone : ts.find? (·.kind = .eof) = none := by simpa using hts
  rw [endMark, endMark, List.find?_append, hnone, Option.none_or, List.getLast?_append,
    List.getLast?_cons, Option.some_or]

/-- What stands behind tokens without an end mark is parsed with the end mark of both. -/
theorem parse_eq_readProgram_endMark {ts : List Token} (hts : ∀ t ∈ ts, t.kind ≠ .eof)
    (us : List Token) :
    parse us = readProgram (endMark (ts ++ us)) (us.takeWhile (·.kind ≠ .eof)) := by
  cases us with
  | nil => rw [parse, List.takeWhile_nil, readProgram_nil, readProgram_nil]
  | cons t us => rw [parse, endMark_append hts]

theorem parse_append_eq {ts : List Token} (hts : ∀ t ∈ ts, t.kind ≠ .eof) (us : List Token) :
    parse (ts ++ us) =
      readProgram (endMark (ts ++ us)) (ts ++ us.takeWhile (·.kind ≠ .eof)) := by
  have htake : (ts ++ us).takeWhile (·.kind ≠ .eof) = ts ++ us.takeWhile (·.kind ≠ .eof) :=
    List.takeWhile_append_of_pos (by simpa using hts)
  rw [parse, htake]

/-- Tokens without an end mark are parsed as a whole, with the end mark of what follows. -/
theorem parse_append {ts : List Token} (hts : ∀ t ∈ ts, t.kind ≠ .eof) (us : List Token) :
    ∃ last, parse (ts ++ us) = readProgram last (ts ++ us.takeWhile (·.kind ≠ .eof)) ∧
      parse us = readProgram last (us.takeWhile (·.kind ≠ .eof)) :=
  ⟨endMark (ts ++ us), parse_append_eq hts us, parse_eq_readProgram_endMark hts us⟩

/-- Tokens without an end mark are parsed to their end, where there is nothing or an end mark. -/
theorem parse_append_end {ts tail : List Token} (hts : ∀ t ∈ ts, t.kind ≠ .eof)
    (htail : ∀ t ∈ tail.head?, t.kind = .eof) :
    ∃ last, parse (ts ++ tail) = readProgram last ts := by
  have htake : tail.takeWhile (·.kind ≠ .eof) = [] := by
    cases tail with
    | nil => rfl
    | cons t tail => exact List.takeWhile_cons_of_neg (by simpa using htail t rfl)
  obtain ⟨last, hparse, -⟩ := parse_append hts tail
  exact ⟨last, by rw [hparse, htake, List.append_nil]⟩

theorem SimpleClause.parse_eq {c : SimpleClause} {s? : Option Stmt} {es : List ParseError}
    (h : ReadAs c.tokens s? es) : parse c.tokens = ⟨s?.toList, es⟩ := by
  obtain ⟨last, hparse, -⟩ := parse_append c.tokens_ne_eof []
  rw [List.append_nil] at hparse
  rw [hparse, readProgram_of_readAs h]
  simp [readProgram_nil]

mutual

theorem Clause.readAs : (c : Clause) → ∃ s? es, ReadAs c.tokens s? es ∧ c.parsed = ⟨s?.toList, es⟩
  | .simple c => by
    obtain ⟨s?, es, hread, -⟩ := c.readAs
    rw [Clause.tokens, Clause.parsed]
    exact ⟨s?, es, hread, SimpleClause.parse_eq hread⟩
  | .block left cs right hleft hright => by
    rw [Clause.tokens, Clause.parsed]
    have hread := readAs_block hleft (Clause.reading_readBlock hright cs)
    exact ⟨some (.block (Clause.parsedAll cs).statements), _, hread, rfl⟩

theorem Clause.reading_readBlock {right : Token} (hright : right.kind = .rightBrace) :
    (cs : List Clause) → ∀ last rest,
      (readBlock last (Clause.tokensAll cs ++ right :: rest)).reading =
        .done (Clause.parsedAll cs).statements rest (Clause.parsedAll cs).errors
  | [], last, rest => by
    rw [Clause.tokensAll, List.nil_append, reading_readBlock_cons, if_pos hright]
    rfl
  | c :: cs, last, rest => by
    obtain ⟨s?, es, hread, hparsed⟩ := c.readAs
    rw [Clause.tokensAll, List.append_assoc, Clause.parsedAll, hparsed]
    exact readBlock_of_readAs hread (Clause.reading_readBlock hright cs last rest)

end

theorem Clause.readProgram_eq (cs : List Clause) (last : Token) (rest : List Token) :
    readProgram last (Clause.tokensAll cs ++ rest) =
      Clause.parsedAll cs ++ readProgram last rest := by
  induction cs with
  | nil => rfl
  | cons c cs ih =>
    obtain ⟨s?, es, hread, hparsed⟩ := c.readAs
    rw [tokensAll, List.append_assoc, readProgram_of_readAs hread, ih, parsedAll, hparsed]
    simp only [Parsed.append_def, List.append_assoc]

mutual

theorem Clause.tokens_ne_eof : (c : Clause) → ∀ t ∈ c.tokens, t.kind ≠ .eof
  | .simple c => by
    rw [Clause.tokens]
    exact c.tokens_ne_eof
  | .block left cs right hleft hright => by
    rw [Clause.tokens, List.forall_mem_cons, List.forall_mem_append, List.forall_mem_singleton]
    exact ⟨by rw [hleft]; decide, Clause.tokensAll_ne_eof cs, by rw [hright]; decide⟩

theorem Clause.tokensAll_ne_eof : (cs : List Clause) → ∀ t ∈ Clause.tokensAll cs, t.kind ≠ .eof
  | [] => by
    rw [Clause.tokensAll]
    exact List.forall_mem_nil _
  | c :: cs => by
    rw [Clause.tokensAll, List.forall_mem_append]
    exact ⟨c.tokens_ne_eof, Clause.tokensAll_ne_eof cs⟩

end

/-- A program that begins with clauses is parsed clause by clause, and then as what remains: a
simple clause gives what parsing it alone gives, and a block the statements and errors of its
clauses. A simple clause gives one statement, or none if and only if an error was raised in it. -/
theorem parse_tokensAll_append (cs : List Clause) (rest : List Token) :
    parse (Clause.tokensAll cs ++ rest) = Clause.parsedAll cs ++ parse rest ∧
    ∀ c : SimpleClause, (parse c.tokens).statements.length ≤ 1 ∧
      ((parse c.tokens).statements = [] ↔ ∃ e ∈ (parse c.tokens).errors, e.Raised) := by
  refine ⟨?_, fun c => ?_⟩
  · obtain ⟨last, hparse, hrest⟩ := parse_append (Clause.tokensAll_ne_eof cs) rest
    rw [hparse, Clause.readProgram_eq, hrest]
  · obtain ⟨s?, es, hread, hraised⟩ := c.readAs
    rw [SimpleClause.parse_eq hread]
    refine ⟨Option.length_toList_le, ?_⟩
    rw [← hraised, Option.toList_eq_nil_iff]

end LoxLang
