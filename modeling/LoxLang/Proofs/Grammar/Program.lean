import LoxLang.Proofs.Grammar.Phrase

/-! # Parsing is exact for the grammar

A declaration other than a block is a *sentence*: it ends with its semicolon. The readers of
sentences are exact, as those of expressions are (`readSentence_meets`,
`Sentence.readSentence_eq`). With the braces of blocks on top, a program is read without errors if
and only if the grammar derives it, and then the statements are the tree of the derivation
(`parse_errors_eq_nil_iff_derivesProgram`). -/

namespace LoxLang

/-! ## Sentences -/

/-- The tokens are a declaration other than a block, but for the targets of assignments; this is
its tree, and these are the errors. -/
inductive Sentence : List Token → Stmt → List ParseError → Prop
  | var {keyword name close : Token} :
    keyword.kind = .kwVar → name.kind = .identifier → close.kind = .semicolon →
    Sentence [keyword, name, close] (.var name none) []
  | varInit {keyword name equals close : Token} {ts : List Token} {e : Expr}
      {es : List ParseError} :
    keyword.kind = .kwVar → name.kind = .identifier → equals.kind = .equal →
    Phrase .assignment ts e es → close.kind = .semicolon →
    Sentence (keyword :: name :: equals :: (ts ++ [close])) (.var name (some e)) es
  | print {keyword close : Token} {ts : List Token} {e : Expr} {es : List ParseError} :
    keyword.kind = .kwPrint → Phrase .assignment ts e es → close.kind = .semicolon →
    Sentence (keyword :: (ts ++ [close])) (.print e) es
  | expression {close : Token} {ts : List Token} {e : Expr} {es : List ParseError} :
    Phrase .assignment ts e es → close.kind = .semicolon →
    Sentence (ts ++ [close]) (.expression e) es

/-- Reads the declaration `t :: ts` if it is no block. -/
def readSentence (last t : Token) (ts : List Token) : Reading Stmt :=
  if t.kind = .kwVar then (readVariable last ts).reading
  else if t.kind = .kwPrint then (readPrint last ts).reading
  else (readExpression last (t :: ts)).reading

theorem readDeclaration_of_ne_leftBrace (last : Token) {t : Token} (ht : t.kind ≠ .leftBrace)
    (ts : List Token) : (readDeclaration last t ts).1 = .ofReading (readSentence last t ts) := by
  rw [readDeclaration_val, if_neg ht]
  rfl

theorem readDeclaration_of_leftBrace (last : Token) {t : Token} (ht : t.kind = .leftBrace)
    (ts : List Token) :
    (readDeclaration last t ts).1 = .ofReading
      ((readBlock last ts).reading.bind fun ss rest => .done (.block ss) rest []) := by
  rw [readDeclaration_val, ht]
  rfl

/-- The readers of declarations and blocks call each other on shorter lists: a declaration may be a
block behind its brace, and a block is a declaration and the block that follows it. -/
theorem declarations_induction (last : Token) {declaration : Token → List Token → Prop}
    {block : List Token → Prop}
    (sentence : ∀ t ts, t.kind ≠ .leftBrace → declaration t ts)
    (brace : ∀ t ts, t.kind = .leftBrace → block ts → declaration t ts)
    (nil : block [])
    (close : ∀ t ts, t.kind = .rightBrace → block (t :: ts))
    (cons : ∀ t ts, t.kind ≠ .rightBrace → declaration t ts →
      block (readDeclaration last t ts).1.rest → block (t :: ts)) :
    (∀ ts, block ts) ∧ ∀ t ts, declaration t ts := by
  have hdeclaration (t : Token) (ts : List Token) (hblock : block ts) : declaration t ts := by
    by_cases ht : t.kind = .leftBrace
    · exact brace t ts ht hblock
    · exact sentence t ts ht
  have hblock (ts : List Token) : block ts := by
    induction hn : ts.length using Nat.strongRecOn generalizing ts with
    | ind n ih =>
      subst hn
      cases ts with
      | nil => exact nil
      | cons t ts =>
        by_cases ht : t.kind = .rightBrace
        · exact close t ts ht
        · have hts := ih ts.length (length_lt_cons t ts) ts rfl
          have hrest := ih _ (readDeclaration last t ts).2 _ rfl
          exact cons t ts ht (hdeclaration t ts hts) hrest
  exact ⟨hblock, fun t ts => hdeclaration t ts (hblock ts)⟩

/-- A program is a declaration and the program that follows it. -/
theorem program_induction (last : Token) {program : List Token → Prop} (nil : program [])
    (cons : ∀ t ts, program (readDeclaration last t ts).1.rest → program (t :: ts))
    (ts : List Token) : program ts := by
  induction hn : ts.length using Nat.strongRecOn generalizing ts with
  | ind n ih =>
    subst hn
    cases ts with
    | nil => exact nil
    | cons t ts => exact cons t ts (ih _ (readDeclaration last t ts).2 _ rfl)

/-- The kinds by which the readers tell a declaration, or the end of a block, from an expression. -/
def Kind.leadsStatement : Kind → Bool
  | .kwVar | .kwPrint | .leftBrace | .rightBrace => true
  | _ => false

theorem Token.leadsStatement_of_atom? {t : Token} {e : Expr} (h : t.atom? = some e) :
    t.kind.leadsStatement = false := by
  have hatoms : ∀ kind ∈ Kind.atoms, kind.leadsStatement = false := by decide
  exact hatoms t.kind (Token.kind_mem_atoms h)

/-- An expression begins with none of them. -/
theorem Phrase.head {level : Level} {ts : List Token} {e : Expr} {es : List ParseError}
    (h : Phrase level ts e es) : ∃ t us, ts = t :: us ∧ t.kind.leadsStatement = false := by
  induction h with
  | assign _ _ _ ih | invalidTarget _ _ _ _ ih | binary _ _ _ _ ih =>
    obtain ⟨t, us, rfl, ht⟩ := ih
    exact ⟨t, _, rfl, ht⟩
  | equality _ ih | operand _ _ ih | primary _ ih => exact ih
  | @unary op _ _ _ hop =>
    refine ⟨op, _, rfl, ?_⟩
    have hmem := Level.mem_unary_iff.mpr hop
    simp only [List.mem_cons, List.not_mem_nil, or_false] at hmem
    rcases hmem with h | h <;> rw [h] <;> rfl
  | @atom t _ h => exact ⟨t, [], rfl, t.leadsStatement_of_atom? h⟩
  | @grouping left _ _ _ _ hleft => exact ⟨left, _, rfl, by rw [hleft]; rfl⟩

/-- A sentence is read to its end, whatever follows it. -/
theorem Sentence.readSentence_eq {ts : List Token} {s : Stmt} {es : List ParseError}
    (h : Sentence ts s es) : ∃ t us, ts = t :: us ∧ t.kind ≠ .leftBrace ∧ t.kind ≠ .rightBrace ∧
      ∀ last rest, readSentence last t (us ++ rest) = .done s rest es := by
  have read {ts : List Token} {e : Expr} {es : List ParseError} {close : Token}
      (h : Phrase .assignment ts e es) (hclose : close.kind = .semicolon) (last : Token)
      (rest : List Token) :
      (readLevel last .assignment (ts ++ close :: rest)).reading = .done e (close :: rest) es :=
    h.reading_eq_done last (.of_closing (.inr hclose))
  cases h with
  | @var keyword name close hkeyword hname hclose =>
    refine ⟨keyword, [name, close], rfl, by rw [hkeyword]; decide, by rw [hkeyword]; decide, ?_⟩
    intro last rest
    rw [readSentence, if_pos hkeyword, List.cons_append, reading_readVariable,
      reading_expect_of_kind _ _ hname]
    simp only [List.cons_append, List.nil_append, Reading.bind_done, hclose, reduceCtorEq, if_false,
      reading_expect_of_kind _ _ hclose, Reading.after_nil]
  | @varInit keyword name equals close ts e es hkeyword hname hequals he hclose =>
    refine ⟨keyword, _, rfl, by rw [hkeyword]; decide, by rw [hkeyword]; decide, ?_⟩
    intro last rest
    rw [readSentence, if_pos hkeyword, List.cons_append, reading_readVariable,
      reading_expect_of_kind _ _ hname]
    simp only [List.cons_append, List.append_assoc, List.nil_append, Reading.bind_done, hequals,
      if_true, read he hclose, reading_expect_of_kind _ _ hclose, Reading.after, List.append_nil]
  | @print keyword close ts e es hkeyword he hclose =>
    refine ⟨keyword, _, rfl, by rw [hkeyword]; decide, by rw [hkeyword]; decide, ?_⟩
    intro last rest
    rw [readSentence, if_neg (by rw [hkeyword]; decide), if_pos hkeyword, reading_readPrint,
      List.append_assoc, List.singleton_append, read he hclose]
    simp only [Reading.bind_done, reading_expect_of_kind _ _ hclose, Reading.after, List.append_nil]
  | @expression close ts e es he hclose =>
    obtain ⟨t, us, rfl, ht⟩ := he.head
    refine ⟨t, us ++ [close], rfl, ?_, ?_, ?_⟩
    · intro h; rw [h] at ht; cases ht
    · intro h; rw [h] at ht; cases ht
    intro last rest
    have hvar : t.kind ≠ .kwVar := fun h => by rw [h] at ht; cases ht
    have hprint : t.kind ≠ .kwPrint := fun h => by rw [h] at ht; cases ht
    rw [readSentence, if_neg hvar, if_neg hprint, reading_readExpression, List.append_assoc,
      List.singleton_append, ← List.cons_append, read he hclose]
    simp only [Reading.bind_done, reading_expect_of_kind _ _ hclose, Reading.after, List.append_nil]

/-- The tokens in front of `rest` are a sentence. -/
def SentenceOff (ts : List Token) (s : Stmt) (rest : List Token) (es : List ParseError) : Prop :=
  ∃ us, ts = us ++ rest ∧ Sentence us s es

theorem readVariable_meets (last : Token) {t : Token} (ht : t.kind = .kwVar) (ts : List Token) :
    (readVariable last ts).reading.Meets (SentenceOff (t :: ts)) (Halts last (t :: ts)) := by
  rw [reading_readVariable]
  refine (expect_meets last .identifier ts (by decide)).bind (fun rest es hstuck => ?_) ?_
  · exact hstuck.after (.tokens [t])
  rintro name rest - - ⟨rfl, hname, rfl⟩
  rw [Reading.after_nil]
  -- the semicolon, with or without a value in front of it
  have close (us : List Token) {vs : List Token} {initializer : Option Expr} {es : List ParseError}
      (hes : Taken us es) (happ : t :: name :: rest = us ++ vs)
      (h : ∀ {close : Token}, close.kind = .semicolon →
        Sentence (us ++ [close]) (.var name initializer) es) :
      (((expect last .semicolon .expectSemicolonAfterVariable vs).reading.bind fun _ rest =>
        .done (.var name initializer) rest []).after es).Meets (SentenceOff (t :: name :: rest))
          (Halts last (t :: name :: rest)) := by
    refine (expect_meets last .semicolon vs (by decide)).bind_after (fun rest fs hstuck => ?_) ?_
    · rw [happ]
      exact hstuck.after hes
    · rintro semicolon rest - - ⟨rfl, hclose, rfl⟩
      exact ⟨us ++ [semicolon], by simpa using happ, by simpa using h hclose⟩
  cases rest with
  | nil => simpa using close [t, name] (.tokens _) rfl (Sentence.var ht hname)
  | cons equals rest =>
    dsimp only
    split
    · next hequals =>
      refine (readLevel_meets last .assignment rest).bind (fun rest es hstuck => ?_) ?_
      · exact hstuck.after (.tokens [t, name, equals])
      · rintro e rest es - ⟨us, rfl, he⟩
        exact close (t :: name :: equals :: us) he.taken.token.token.token rfl
          (Sentence.varInit ht hname hequals he)
    · simpa using close [t, name] (.tokens _) rfl (Sentence.var ht hname)

/-- An expression and its semicolon behind the tokens `us`. -/
theorem closed_meets {last : Token} (us : List Token) {ts : List Token} {cause : ParseCause}
    {make : Expr → Stmt} (hcause : cause ≠ .invalidTarget)
    (h : ∀ {vs e es close}, Phrase .assignment vs e es → close.kind = .semicolon →
      Sentence (us ++ vs ++ [close]) (make e) es) :
    ((readLevel last .assignment ts).reading.bind fun e rest =>
      (expect last .semicolon cause rest).reading.bind fun _ rest => .done (make e) rest []).Meets
        (SentenceOff (us ++ ts)) (Halts last (us ++ ts)) := by
  refine (readLevel_meets last .assignment ts).bind (fun rest es hstuck => ?_) ?_
  · exact hstuck.after (.tokens us)
  rintro e rest es - ⟨vs, rfl, he⟩
  refine (expect_meets last .semicolon rest hcause).bind_after (fun rest' fs hstuck => ?_) ?_
  · simpa using hstuck.after ((Taken.tokens us).append he.taken)
  · rintro close rest - - ⟨rfl, hclose, rfl⟩
    exact ⟨us ++ vs ++ [close], by simp, by simpa using h he hclose⟩

theorem readSentence_halts (last t : Token) (ts : List Token) :
    (readSentence last t ts).Meets (SentenceOff (t :: ts)) (Halts last (t :: ts)) := by
  unfold readSentence
  split
  · next ht => exact readVariable_meets last ht ts
  split
  · next ht =>
    rw [reading_readPrint]
    exact closed_meets [t] (by decide) (Sentence.print ht)
  · rw [reading_readExpression]
    exact closed_meets [] (by decide) Sentence.expression

theorem readSentence_meets (last t : Token) (ts : List Token) :
    (readSentence last t ts).Meets (SentenceOff (t :: ts)) (StuckAt last (t :: ts)) := by
  have hmeets := readSentence_halts last t ts
  cases hread : readSentence last t ts with
  | done s rest es =>
    rw [hread] at hmeets
    exact hmeets
  | stuck rest es =>
    rw [hread] at hmeets
    exact hmeets.stuckAt

/-! ## Declarations and blocks -/

theorem Sentence.derivesDeclaration {ts : List Token} {s : Stmt} (h : Sentence ts s []) :
    DerivesDeclaration ts s := by
  cases h with
  | var hkeyword hname hclose => exact .var hkeyword hname hclose
  | varInit hkeyword hname hequals he hclose =>
    exact .varInit hkeyword hname hequals he.derives hclose
  | print hkeyword he hclose => exact .statement (.print hkeyword he.derives hclose)
  | expression he hclose => exact .statement (.expression he.derives hclose)

/-- The tokens are read as one declaration, with this statement, if any, and these errors,
whatever follows them; and they do not close a block. -/
def ReadAs (ts : List Token) (s? : Option Stmt) (es : List ParseError) : Prop :=
  ∃ t us, ts = t :: us ∧ t.kind ≠ .rightBrace ∧
    ∀ last rest, (readDeclaration last t (us ++ rest)).1 = ⟨s?, rest, es⟩

theorem Sentence.readAs {ts : List Token} {s : Stmt} {es : List ParseError}
    (h : Sentence ts s es) : ReadAs ts (some s) es := by
  obtain ⟨t, us, rfl, hleft, hright, hread⟩ := h.readSentence_eq
  refine ⟨t, us, rfl, hright, fun last rest => ?_⟩
  rw [readDeclaration_of_ne_leftBrace last hleft, hread]
  rfl

theorem readAs_block {left right : Token} {ts : List Token} {ss : List Stmt}
    {es : List ParseError} (hleft : left.kind = .leftBrace)
    (h : ∀ last rest, (readBlock last (ts ++ right :: rest)).reading = .done ss rest es) :
    ReadAs (left :: (ts ++ [right])) (some (.block ss)) es := by
  refine ⟨left, ts ++ [right], rfl, by rw [hleft]; decide, fun last rest => ?_⟩
  rw [readDeclaration_of_leftBrace last hleft, List.append_assoc, List.singleton_append, h]
  simp only [Reading.bind_done, Reading.after, List.append_nil, Declaration.ofReading]

theorem readBlock_of_readAs {last : Token} {ts us : List Token} {s? : Option Stmt}
    {ss : List Stmt} {rest : List Token} {es fs : List ParseError} (h : ReadAs ts s? es)
    (hus : (readBlock last us).reading = .done ss rest fs) :
    (readBlock last (ts ++ us)).reading = .done (s?.toList ++ ss) rest (es ++ fs) := by
  obtain ⟨t, ts, rfl, hright, hread⟩ := h
  rw [List.cons_append, reading_readBlock_cons, if_neg hright, hread]
  simp only [hus, Reading.bind_done, Reading.after, List.append_nil]

mutual

theorem DerivesDeclaration.readAs {ts : List Token} {s : Stmt} :
    DerivesDeclaration ts s → ReadAs ts (some s) []
  | .var hkeyword hname hclose => (Sentence.var hkeyword hname hclose).readAs
  | .varInit hkeyword hname hequals he hclose =>
    (Sentence.varInit hkeyword hname hequals he.phrase hclose).readAs
  | .statement h => h.readAs

theorem DerivesStatement.readAs {ts : List Token} {s : Stmt} :
    DerivesStatement ts s → ReadAs ts (some s) []
  | .print hkeyword he hclose => (Sentence.print hkeyword he.phrase hclose).readAs
  | .block hleft h hright =>
    readAs_block hleft fun last rest => h.reading_readBlock hright last rest
  | .expression he hclose => (Sentence.expression he.phrase hclose).readAs

theorem DerivesDeclarations.reading_readBlock {ts : List Token} {ss : List Stmt} {right : Token}
    (hright : right.kind = .rightBrace) (last : Token) (rest : List Token) :
    DerivesDeclarations ts ss →
    (readBlock last (ts ++ right :: rest)).reading = .done ss rest []
  | .nil => by rw [List.nil_append, reading_readBlock_cons, if_pos hright]
  | .cons h hs => by
    rw [List.append_assoc]
    exact readBlock_of_readAs h.readAs (hs.reading_readBlock hright last rest)

end

/-- What is read of a block without errors are declarations and the closing brace; and a block
that is not read gives an error. -/
def BlockDerives (last : Token) (ts : List Token) : Prop :=
  (readBlock last ts).reading.Meets
    (fun ss rest es => es = [] → ∃ us right, ts = us ++ right :: rest ∧
      right.kind = .rightBrace ∧ DerivesDeclarations us ss)
    (fun _ es => es ≠ [])

/-- What is read of a declaration without errors is a declaration of the grammar. -/
def DeclarationDerives (last t : Token) (ts : List Token) : Prop :=
  (readDeclaration last t ts).1.errors = [] →
    ∃ us s, t :: ts = us ++ (readDeclaration last t ts).1.rest ∧
      (readDeclaration last t ts).1.stmt? = some s ∧ DerivesDeclaration us s

theorem declarationDerives_sentence (last : Token) {t : Token} (ht : t.kind ≠ .leftBrace)
    (ts : List Token) : DeclarationDerives last t ts := by
  intro h
  rw [readDeclaration_of_ne_leftBrace last ht] at h ⊢
  have hmeets := readSentence_meets last t ts
  cases hread : readSentence last t ts with
  | done s rest es =>
    rw [hread] at h hmeets
    obtain ⟨us, hus, hs⟩ := hmeets
    cases (h : es = [])
    exact ⟨us, s, hus, rfl, hs.derivesDeclaration⟩
  | stuck rest es =>
    rw [hread] at h hmeets
    exact absurd h hmeets.errors_ne_nil

theorem declarationDerives_block {last t : Token} (ht : t.kind = .leftBrace) {ts : List Token}
    (hblock : BlockDerives last ts) : DeclarationDerives last t ts := by
  intro h
  rw [readDeclaration_of_leftBrace last ht] at h ⊢
  unfold BlockDerives at hblock
  cases hread : (readBlock last ts).reading with
  | done ss rest es =>
    rw [hread] at h hblock
    have hes : es = [] := by simpa [Reading.after, Declaration.ofReading] using h
    obtain ⟨us, right, rfl, hright, hus⟩ := hblock hes
    exact ⟨t :: (us ++ [right]), .block ss, by simp [Reading.after, Declaration.ofReading], rfl,
      .statement (.block ht hus hright)⟩
  | stuck rest es =>
    rw [hread] at h hblock
    exact absurd h hblock

theorem blockDerives_cons {last t : Token} {ts : List Token} (ht : t.kind ≠ .rightBrace)
    (hd : DeclarationDerives last t ts)
    (hblock : BlockDerives last (readDeclaration last t ts).1.rest) :
    BlockDerives last (t :: ts) := by
  unfold DeclarationDerives at hd
  unfold BlockDerives at hblock ⊢
  rw [reading_readBlock_cons, if_neg ht]
  generalize (readDeclaration last t ts).1 = d at hd hblock
  refine hblock.bind_after ?_ ?_
  · intro rest es hes
    exact List.append_ne_nil_of_right_ne_nil _ hes
  · rintro ss rest es - hrest hnil
    simp only [List.append_nil, List.append_eq_nil_iff] at hnil
    obtain ⟨us, s, hus, hs, hderives⟩ := hd hnil.1
    obtain ⟨vs, right, hvs, hright, hss⟩ := hrest hnil.2
    refine ⟨us ++ vs, right, ?_, hright, ?_⟩
    · rw [hus, hvs, List.append_assoc]
    · rw [hs]
      exact .cons hderives hss

theorem declarations_derive (last : Token) :
    (∀ ts, BlockDerives last ts) ∧ ∀ t ts, DeclarationDerives last t ts := by
  refine declarations_induction last ?_ ?_ ?_ ?_ ?_
  · intro t ts ht
    exact declarationDerives_sentence last ht ts
  · intro t ts ht hblock
    exact declarationDerives_block ht hblock
  · unfold BlockDerives
    rw [reading_readBlock_nil]
    exact List.cons_ne_nil _ _
  · intro t ts ht
    unfold BlockDerives
    rw [reading_readBlock_cons, if_pos ht]
    exact fun _ => ⟨[], t, rfl, ht, .nil⟩
  · intro t ts ht hd hblock
    exact blockDerives_cons ht hd hblock

theorem derivesDeclarations_of_errors_eq_nil {last : Token} {ts : List Token}
    (h : (readProgram last ts).errors = []) :
    DerivesDeclarations ts (readProgram last ts).statements := by
  induction ts using program_induction last with
  | nil =>
    rw [readProgram_nil]
    exact .nil
  | cons t ts ih =>
    rw [readProgram_cons] at h ⊢
    have hd := (declarations_derive last).2 t ts
    unfold DeclarationDerives at hd
    generalize (readDeclaration last t ts).1 = d at h hd ih
    obtain ⟨hnil, hrest⟩ := List.append_eq_nil_iff.mp h
    obtain ⟨us, s, hus, hs, hderives⟩ := hd hnil
    dsimp only
    rw [hus, hs]
    exact .cons hderives (ih hrest)

/-! ## Programs -/

theorem readProgram_of_readAs {last : Token} {ts us : List Token} {s? : Option Stmt}
    {es : List ParseError} (h : ReadAs ts s? es) :
    readProgram last (ts ++ us) =
      ⟨s?.toList ++ (readProgram last us).statements, es ++ (readProgram last us).errors⟩ := by
  obtain ⟨t, ts, rfl, -, hread⟩ := h
  rw [List.cons_append, readProgram_cons, hread]

/-- Declarations are read to their end, whatever follows them. -/
theorem DerivesDeclarations.readProgram_eq {ts : List Token} {ss : List Stmt}
    (h : DerivesDeclarations ts ss) (last : Token) (rest : List Token) :
    readProgram last (ts ++ rest) =
      ⟨ss ++ (readProgram last rest).statements, (readProgram last rest).errors⟩ :=
  match h with
  | .nil => rfl
  | .cons h hs => by
    rw [List.append_assoc, readProgram_of_readAs h.readAs, hs.readProgram_eq last rest]
    rfl

theorem takeWhile_append_eof {ts : List Token} {last : Token} (hts : ∀ t ∈ ts, t.kind ≠ .eof)
    (hlast : last.kind = .eof) (us : List Token) :
    (ts ++ last :: us).takeWhile (·.kind ≠ .eof) = ts := by
  rw [List.takeWhile_append_of_pos (by simpa using hts),
    List.takeWhile_cons_of_neg (by simp [hlast]), List.append_nil]

/-- A program is parsed up to its end mark. -/
theorem parse_append_eof {ts : List Token} {last : Token} (hts : ∀ t ∈ ts, t.kind ≠ .eof)
    (hlast : last.kind = .eof) (us : List Token) :
    parse (ts ++ last :: us) = readProgram last ts := by
  have hmark : endMark (ts ++ last :: us) = last := by
    have hnone : ts.find? (·.kind = .eof) = none := by simpa using hts
    rw [endMark, List.find?_append, hnone, Option.none_or,
      List.find?_cons_of_pos (by simpa using hlast)]
    rfl
  rw [parse, hmark, takeWhile_append_eof hts hlast]

theorem DerivesProgram.exists_declarations {ts : List Token} {last : Token} {ss : List Stmt}
    (h : DerivesProgram (ts ++ [last]) ss) : DerivesDeclarations ts ss := by
  generalize hus : ts ++ [last] = us at h
  cases h with
  | intro h _ =>
    obtain ⟨rfl, -⟩ := List.append_inj' hus rfl
    exact h

/-- The parser accepts exactly the programs of the grammar: it finds no error in the tokens `ts`
up to their end mark if and only if the grammar derives them. The derivation's tree is then
determined by the tokens, and it is what the parser returns. -/
theorem parse_errors_eq_nil_iff_derivesProgram (ts : List Token) (last : Token)
    (hts : ∀ t ∈ ts, t.kind ≠ .eof) (hlast : last.kind = .eof) :
    ((parse (ts ++ [last])).errors = [] ↔ ∃ ss, DerivesProgram (ts ++ [last]) ss) ∧
    ∀ ss, DerivesProgram (ts ++ [last]) ss →
      (∀ ss', DerivesProgram (ts ++ [last]) ss' → ss' = ss) ∧
      (parse (ts ++ [last])).statements = ss := by
  have hparse : ∀ ss, DerivesProgram (ts ++ [last]) ss → parse (ts ++ [last]) = ⟨ss, []⟩ := by
    intro ss h
    have hread := h.exists_declarations.readProgram_eq last []
    rw [parse_append_eof hts hlast]
    simpa [readProgram_nil] using hread
  refine ⟨⟨fun h => ?_, ?_⟩, fun ss h => ⟨fun ss' h' => ?_, ?_⟩⟩
  · rw [parse_append_eof hts hlast] at h
    exact ⟨_, .intro (derivesDeclarations_of_errors_eq_nil h) hlast⟩
  · rintro ⟨ss, h⟩
    rw [hparse ss h]
  · have heq := (hparse ss' h').symm.trans (hparse ss h)
    exact congrArg Parsed.statements heq
  · rw [hparse ss h]

/-- A token on the first line, without a literal. -/
def Token.plain (kind : Kind) (lexeme : String) : Token := ⟨kind, lexeme, .nil, 1⟩

/-- The program `x = a - b - c;` -/
def differenceTokens : List Token :=
  [.plain .identifier "x", .plain .equal "=", .plain .identifier "a", .plain .minus "-",
   .plain .identifier "b", .plain .minus "-", .plain .identifier "c", .plain .semicolon ";"]

def differenceTree : Stmt :=
  .expression (.assign (.plain .identifier "x")
    (.binary
      (.binary (.variable (.plain .identifier "a")) (.plain .minus "-")
        (.variable (.plain .identifier "b")))
      (.plain .minus "-") (.variable (.plain .identifier "c"))))

theorem derivesProgram_difference :
    DerivesProgram (differenceTokens ++ [Token.endAt 1]) [differenceTree] := by
  have factor (name : String) : Derives .factor [.plain .identifier name]
      (.variable (.plain .identifier name)) := .operand .factor (.primary (.identifier rfl))
  have hop : (Token.plain .minus "-").kind ∈ [Kind.minus, Kind.plus] := by decide
  have hterm := Derives.binary .term
    (Derives.binary .term (.operand .term (factor "a")) hop (factor "b")) hop (factor "c")
  have hequality := Derives.operand .equality (.operand .comparison hterm)
  have hassign : Derives .assignment (.plain .identifier "x" :: .plain .equal "=" :: _) _ :=
    .assign rfl rfl (.equality hequality)
  exact .intro (.cons (.statement (.expression hassign rfl)) .nil) rfl

theorem parse_difference :
    (∀ t ∈ differenceTokens, t.kind ≠ .eof) ∧ (Token.endAt 1).kind = .eof ∧
    (parse (differenceTokens ++ [Token.endAt 1])).errors = [] ∧
    (parse (differenceTokens ++ [Token.endAt 1])).statements = [differenceTree] := by
  have hts : ∀ t ∈ differenceTokens, t.kind ≠ .eof := by decide
  have h := parse_errors_eq_nil_iff_derivesProgram differenceTokens (Token.endAt 1) hts rfl
  exact ⟨hts, rfl, h.1.mpr ⟨_, derivesProgram_difference⟩, (h.2 _ derivesProgram_difference).2⟩

end LoxLang
