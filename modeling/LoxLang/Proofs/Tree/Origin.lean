import LoxLang.Proofs.Grammar.Program

/-! # Where trees and errors come from

Whatever is wrong with the tokens, the parser makes nothing up. Each statement that it returns is
that of a sentence that stands in the tokens as a whole, or a block of such statements
(`Stmt.ReadFrom`), with its names and operators from them (`Phrase.token?_mem`), and each error is
about one of the tokens or about the end mark (`parse_drawn`). -/

namespace LoxLang

/-- The expressions inside an expression, itself included. -/
def Expr.subtrees : Expr → List Expr
  | .assign name value => .assign name value :: value.subtrees
  | .binary left operator right =>
    .binary left operator right :: (left.subtrees ++ right.subtrees)
  | .grouping inner => .grouping inner :: inner.subtrees
  | .literal value => [.literal value]
  | .unary operator right => .unary operator right :: right.subtrees
  | .variable name => [.variable name]

mutual

/-- The expressions that a statement is made of, those of the statements inside included. -/
def Stmt.exprs : Stmt → List Expr
  | .block statements => Stmt.exprsAll statements
  | .expression expr => [expr]
  | .print expr => [expr]
  | .var _ initializer => initializer.toList

def Stmt.exprsAll : List Stmt → List Expr
  | [] => []
  | s :: rest => s.exprs ++ Stmt.exprsAll rest

end

theorem Stmt.exists_of_mem_exprsAll {ss : List Stmt} {e : Expr} (h : e ∈ exprsAll ss) :
    ∃ s ∈ ss, e ∈ s.exprs := by
  induction ss with
  | nil => cases h
  | cons s ss ih =>
    rcases List.mem_append.mp h with h | h
    · exact ⟨s, .head _, h⟩
    · obtain ⟨s', hs', he⟩ := ih h
      exact ⟨s', .tail _ hs', he⟩

/-! ## Phrases -/

theorem Token.atom?_cases {t : Token} {e : Expr} (h : t.atom? = some e) :
    (∃ value, e = .literal value) ∨ e = .variable t := by
  unfold Token.atom? at h
  split at h <;> cases h
  case h_6 => exact .inr rfl
  all_goals exact .inl ⟨_, rfl⟩

/-- The name or the operator of an expression. -/
def Expr.token? : Expr → Option Token
  | .assign name _ | .variable name => some name
  | .binary _ operator _ | .unary operator _ => some operator
  | .grouping _ | .literal _ => none

/-- The names and operators in the tree of a phrase are tokens of it. -/
theorem Phrase.token?_mem {level : Level} {ts : List Token} {e : Expr} {es : List ParseError}
    (h : Phrase level ts e es) : ∀ sub ∈ e.subtrees, ∀ t ∈ sub.token?, t ∈ ts := by
  induction h with
  | @assign _ _ name _ _ _ _ _ _ _ ih₁ ih₂ =>
    refine List.forall_mem_cons.mpr ⟨?_, fun sub hsub t ht => ?_⟩
    · rintro _ ⟨⟩
      exact List.mem_append_left _ (ih₁ (.variable name) (.head _) name rfl)
    · simp [ih₂ sub hsub t ht]
  | invalidTarget _ _ _ _ ih _ =>
    exact fun sub hsub t ht => List.mem_append_left _ (ih sub hsub t ht)
  | equality _ ih | operand _ _ ih | primary _ ih => exact ih
  | binary _ _ _ _ ih₁ ih₂ =>
    refine List.forall_mem_cons.mpr ⟨?_, List.forall_mem_append.mpr ⟨?_, ?_⟩⟩
    · rintro _ ⟨⟩
      simp
    · exact fun sub hsub t ht => List.mem_append_left _ (ih₁ sub hsub t ht)
    · exact fun sub hsub t ht => List.mem_append_right _ (.tail _ (ih₂ sub hsub t ht))
  | unary _ _ ih =>
    refine List.forall_mem_cons.mpr ⟨?_, fun sub hsub t ht => .tail _ (ih sub hsub t ht)⟩
    rintro _ ⟨⟩
    exact .head _
  | atom h =>
    rcases Token.atom?_cases h with ⟨value, rfl⟩ | rfl
    · exact List.forall_mem_singleton.mpr fun t ht => nomatch ht
    · refine List.forall_mem_singleton.mpr ?_
      rintro _ ⟨⟩
      exact .head _
  | grouping _ _ _ ih =>
    refine List.forall_mem_cons.mpr ⟨(fun t ht => nomatch ht), fun sub hsub t ht => ?_⟩
    simp [ih sub hsub t ht]

/-- An error in a phrase is about one of its tokens. -/
theorem Phrase.token_mem {level : Level} {ts : List Token} {e : Expr} {es : List ParseError}
    (h : Phrase level ts e es) : ∀ f ∈ es, f.token ∈ ts := by
  induction h with
  | assign _ _ _ ih₁ ih₂ | binary _ _ _ _ ih₁ ih₂ =>
    intro f hf
    rcases List.mem_append.mp hf with hf | hf
    · simp [ih₁ f hf]
    · simp [ih₂ f hf]
  | invalidTarget _ _ _ _ ih₁ ih₂ =>
    intro f hf
    simp only [List.mem_append, List.mem_singleton] at hf
    rcases hf with (hf | hf) | rfl
    · simp [ih₁ f hf]
    · simp [ih₂ f hf]
    · simp
  | equality _ ih | operand _ _ ih | primary _ ih => exact ih
  | unary _ _ ih | grouping _ _ _ ih =>
    intro f hf
    simp [ih f hf]
  | atom => exact fun f hf => nomatch hf

theorem Taken.token_mem {ts : List Token} {es : List ParseError} (h : Taken ts es) :
    ∀ f ∈ es, f.token ∈ ts := by
  induction h with
  | nil => exact fun f hf => nomatch hf
  | token _ ih => exact fun f hf => List.mem_cons_of_mem _ (ih f hf)
  | phrase h _ ih =>
    intro f hf
    rcases List.mem_append.mp hf with hf | hf
    · exact List.mem_append_left _ (h.token_mem f hf)
    · exact List.mem_append_right _ (ih f hf)

/-- The expression is the tree of a phrase that stands in the tokens as a whole. -/
def StandsIn (ts : List Token) (e : Expr) : Prop :=
  ∃ us es, us <:+: ts ∧ Phrase .assignment us e es

theorem StandsIn.mono {ts us : List Token} {e : Expr} (h : StandsIn ts e) (hts : ts <:+: us) :
    StandsIn us e := by
  obtain ⟨vs, es, hvs, he⟩ := h
  exact ⟨vs, es, hvs.trans hts, he⟩

theorem Sentence.standsIn {ts : List Token} {s : Stmt} {es : List ParseError}
    (h : Sentence ts s es) : ∀ e ∈ s.exprs, StandsIn ts e := by
  cases h with
  | var => exact fun e he => nomatch he
  | @varInit keyword name equals close us _ _ _ _ _ he =>
    intro e hmem
    cases List.mem_singleton.mp hmem
    exact ⟨us, es, ⟨[keyword, name, equals], [close], by simp⟩, he⟩
  | @print keyword close us _ _ _ he =>
    intro e hmem
    cases List.mem_singleton.mp hmem
    exact ⟨us, es, ⟨[keyword], [close], by simp⟩, he⟩
  | @expression close us _ _ he =>
    intro e hmem
    cases List.mem_singleton.mp hmem
    exact ⟨us, es, ⟨[], [close], by simp⟩, he⟩

theorem Sentence.token_mem {ts : List Token} {s : Stmt} {es : List ParseError}
    (h : Sentence ts s es) : ∀ f ∈ es, f.token ∈ ts := by
  cases h with
  | var => exact fun f hf => nomatch hf
  | varInit _ _ _ he | print _ he | expression he =>
    intro f hf
    simp [he.token_mem f hf]

/-! ## Declarations and blocks -/

/-- The statement was read from the tokens: it is that of a sentence that stands in them as a whole,
or a block of such statements. -/
inductive Stmt.ReadFrom (ts : List Token) : Stmt → Prop
  | sentence {us : List Token} {s : Stmt} {es : List ParseError} :
    us <:+: ts → Sentence us s es → ReadFrom ts s
  | block {ss : List Stmt} : (∀ s ∈ ss, ReadFrom ts s) → ReadFrom ts (.block ss)

namespace Stmt.ReadFrom

variable {ts us : List Token} {s : Stmt}

theorem mono (h : s.ReadFrom ts) (hts : ts <:+: us) : s.ReadFrom us := by
  induction h with
  | sentence hus hs => exact .sentence (hus.trans hts) hs
  | block _ ih => exact .block ih

theorem standsIn (h : s.ReadFrom ts) : ∀ e ∈ s.exprs, StandsIn ts e := by
  induction h with
  | sentence hus hs => exact fun e he => (hs.standsIn e he).mono hus
  | block _ ih =>
    intro e he
    obtain ⟨s, hs, he⟩ := exists_of_mem_exprsAll he
    exact ih s hs e he

end Stmt.ReadFrom

/-- What was read of the tokens `ts` in front of `rest`: these statements and errors. -/
structure Drawn (last : Token) (ts : List Token) (ss : List Stmt) (rest : List Token)
    (es : List ParseError) : Prop where
  suffix : rest <:+ ts
  readFrom : ∀ s ∈ ss, s.ReadFrom ts
  token : ∀ f ∈ es, f.token ∈ ts ∨ f.token = last

namespace Drawn

variable {last t : Token} {ts us rest : List Token} {ss ss' : List Stmt} {es fs : List ParseError}

/-- No statement came of the tokens. -/
theorem failed (hrest : rest <:+ ts) (h : ∀ f ∈ es, f.token ∈ ts ∨ f.token = last) :
    Drawn last ts [] rest es where
  suffix := hrest
  readFrom := fun _ hs => nomatch hs
  token := h

theorem nil (rest : List Token) : Drawn last rest [] rest [] :=
  failed (List.suffix_refl rest) fun _ h => nomatch h

theorem cons (h : Drawn last ts ss rest es) (t : Token) : Drawn last (t :: ts) ss rest es where
  suffix := h.suffix.trans (List.suffix_cons t ts)
  readFrom := fun s hs => (h.readFrom s hs).mono (List.suffix_cons t ts).isInfix
  token := fun f hf => (h.token f hf).imp_left (List.mem_cons_of_mem t)

theorem append (h : Drawn last ts ss us es) (hus : Drawn last us ss' rest fs) :
    Drawn last ts (ss ++ ss') rest (es ++ fs) where
  suffix := hus.suffix.trans h.suffix
  readFrom := List.forall_mem_append.mpr
    ⟨h.readFrom, fun s hs => (hus.readFrom s hs).mono h.suffix.isInfix⟩
  token := by
    intro f hf
    rcases List.mem_append.mp hf with hf | hf
    · exact h.token f hf
    · exact (hus.token f hf).imp_left (h.suffix.mem ·)

theorem standsIn (h : Drawn last ts ss rest es) : ∀ e ∈ Stmt.exprsAll ss, StandsIn ts e := by
  intro e he
  obtain ⟨s, hs, he⟩ := Stmt.exists_of_mem_exprsAll he
  exact (h.readFrom s hs).standsIn e he

end Drawn

theorem SentenceOff.drawn {ts rest : List Token} {s : Stmt} {es : List ParseError}
    (h : SentenceOff ts s rest es) (last : Token) : Drawn last ts [s] rest es := by
  obtain ⟨us, rfl, hus⟩ := h
  refine ⟨List.suffix_append us rest, List.forall_mem_singleton.mpr ?_, fun f hf => ?_⟩
  · exact .sentence (List.prefix_append us rest).isInfix hus
  · exact .inl (List.mem_append_left _ (hus.token_mem f hf))

theorem resumeBehind_suffix (previous : Token) (ts : List Token) :
    resumeBehind previous ts <:+ ts := by
  fun_induction resumeBehind previous ts with
  | case1 => exact List.suffix_refl _
  | case2 => exact List.suffix_refl _
  | case3 _ _ rest _ ih => exact ih.trans (List.suffix_cons _ rest)

theorem resume_suffix (ts : List Token) : resume ts <:+ ts := by
  cases ts with
  | nil => exact List.suffix_refl _
  | cons t rest => exact (resumeBehind_suffix t rest).trans (List.suffix_cons t rest)

/-- A reader that is stuck blames the token it is stuck at. -/
theorem Halts.drawn {last : Token} {ts rest : List Token} {es : List ParseError}
    (h : Halts last ts rest es) : Drawn last ts [] (resume rest) es := by
  cases h with
  | @intro front _ fs cause htaken =>
    refine .failed ((resume_suffix rest).trans (List.suffix_append front rest)) fun f hf => ?_
    rcases List.mem_append.mp hf with hf | hf
    · exact .inl (List.mem_append_left _ (htaken.token_mem f hf))
    · cases List.mem_singleton.mp hf
      cases rest with
      | nil => exact .inr rfl
      | cons t rest => exact .inl (List.mem_append_right _ List.mem_cons_self)

theorem declarations_drawn (last : Token) :
    (∀ ts, (readBlock last ts).reading.Meets (fun ss rest es => Drawn last ts ss rest es)
      fun rest es => rest = [] ∧ Drawn last ts [] [] es) ∧
    ∀ t ts, let d := (readDeclaration last t ts).1
      Drawn last (t :: ts) d.stmt?.toList d.rest d.errors := by
  refine declarations_induction last ?_ ?_ ?_ ?_ ?_
  · intro t ts ht
    rw [readDeclaration_of_ne_leftBrace last ht]
    have hmeets := readSentence_halts last t ts
    cases hread : readSentence last t ts with
    | done s rest es =>
      rw [hread] at hmeets
      exact SentenceOff.drawn hmeets last
    | stuck rest es =>
      rw [hread] at hmeets
      exact hmeets.drawn
  · intro t ts ht hblock
    rw [readDeclaration_of_leftBrace last ht]
    cases hread : (readBlock last ts).reading with
    | done ss rest es =>
      rw [hread] at hblock
      have hdrawn : Drawn last ts ss rest es := hblock
      refine ⟨(hdrawn.cons t).suffix, List.forall_mem_singleton.mpr ?_, ?_⟩
      · exact .block (hdrawn.cons t).readFrom
      · simpa [Declaration.ofReading, Reading.after] using (hdrawn.cons t).token
    | stuck rest es =>
      rw [hread] at hblock
      obtain ⟨rfl, hdrawn⟩ := hblock
      exact hdrawn.cons t
  · rw [reading_readBlock_nil]
    refine ⟨rfl, .failed (List.suffix_refl _) fun f hf => ?_⟩
    cases List.mem_singleton.mp hf
    exact .inr rfl
  · intro t ts ht
    rw [reading_readBlock_cons, if_pos ht]
    exact (Drawn.nil ts).cons t
  · intro t ts ht hd hblock
    rw [reading_readBlock_cons, if_neg ht]
    refine hblock.bind_after ?_ ?_
    · rintro rest es ⟨rfl, hrest⟩
      exact ⟨rfl, .failed (hd.append hrest).suffix (hd.append hrest).token⟩
    · intro ss rest es _ hrest
      simpa only [Reading.after, List.append_nil, Reading.Meets] using hd.append hrest

theorem readProgram_drawn (last : Token) (ts : List Token) :
    Drawn last ts (readProgram last ts).statements [] (readProgram last ts).errors := by
  induction ts using program_induction last with
  | nil =>
    rw [readProgram_nil]
    exact .nil []
  | cons t ts ih =>
    rw [readProgram_cons]
    exact ((declarations_drawn last).2 t ts).append ih

/-- What is parsed comes from the tokens in front of the end mark. -/
theorem parse_drawn (ts : List Token) :
    Drawn (endMark ts) (ts.takeWhile (·.kind ≠ .eof)) (parse ts).statements [] (parse ts).errors :=
  readProgram_drawn _ _

end LoxLang
