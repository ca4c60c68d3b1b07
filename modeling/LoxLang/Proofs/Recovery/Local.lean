import LoxLang.Proofs.Grammar.Program

/-! # Reading does not look behind a bound

A semicolon, or a keyword that begins a statement, occurs in no expression. It bounds what the
readers look at: with a bound ahead, what they do is the same whatever follows the list and
whatever its end mark is (`readLevel_isLocal`, `readSentence_isLocal`). This holds of errors too,
so it is not a consequence of what the readers accept. -/

namespace LoxLang

/-- The kinds at which reading resumes after an error, behind the token or in front of it. -/
def Kind.bounds (kind : Kind) : Bool := kind = .semicolon || kind.startsStatement

/-- Some token of the list is a bound. -/
def HasBound (ts : List Token) : Prop := ∃ t ∈ ts, t.kind.bounds = true

namespace HasBound

variable {t : Token} {ts us : List Token}

theorem of_cons (h : HasBound (t :: ts)) (ht : t.kind.bounds = false) : HasBound ts := by
  obtain ⟨u, hu, hbound⟩ := h
  rcases List.mem_cons.mp hu with rfl | hu
  · rw [ht] at hbound
    cases hbound
  · exact ⟨u, hu, hbound⟩

theorem of_append (h : HasBound (us ++ ts)) (hus : ∀ u ∈ us, u.kind.bounds = false) :
    HasBound ts := by
  induction us with
  | nil => exact h
  | cons u us ih =>
    exact ih (h.of_cons (hus u List.mem_cons_self)) fun v hv => hus v (List.mem_cons_of_mem _ hv)

theorem exists_cons (h : HasBound ts) : ∃ t us, ts = t :: us := by
  obtain ⟨t, ht, -⟩ := h
  exact List.exists_cons_of_ne_nil (List.ne_nil_of_mem ht)

end HasBound

theorem Token.bounds_of_atom? {t : Token} {e : Expr} (h : t.atom? = some e) :
    t.kind.bounds = false := by
  have hatoms : ∀ kind ∈ Kind.atoms, kind.bounds = false := by decide
  exact hatoms t.kind (Token.kind_mem_atoms h)

theorem Level.bounds_of_hasOperator {level : Level} {kind : Kind}
    (h : level.hasOperator kind = true) : kind.bounds = false := by
  unfold hasOperator at h
  split at h <;> first | rfl | cases h

/-- No bound occurs in an expression. -/
theorem Phrase.bounds_eq_false {level : Level} {ts : List Token} {e : Expr}
    {es : List ParseError} (h : Phrase level ts e es) : ∀ t ∈ ts, t.kind.bounds = false := by
  induction h with
  | assign _ hequals _ ih₁ ih₂ | invalidTarget _ _ hequals _ ih₁ ih₂ =>
    rw [List.forall_mem_append, List.forall_mem_cons]
    exact ⟨ih₁, by rw [hequals]; rfl, ih₂⟩
  | binary _ _ hop _ ih₁ ih₂ =>
    rw [List.forall_mem_append, List.forall_mem_cons]
    exact ⟨ih₁, Level.bounds_of_hasOperator hop, ih₂⟩
  | equality _ ih | operand _ _ ih | primary _ ih => exact ih
  | unary hop _ ih =>
    rw [List.forall_mem_cons]
    exact ⟨Level.bounds_of_hasOperator hop, ih⟩
  | atom h =>
    rw [List.forall_mem_singleton]
    exact Token.bounds_of_atom? h
  | grouping hleft _ hright ih =>
    rw [List.forall_mem_cons, List.forall_mem_append, List.forall_mem_singleton]
    exact ⟨by rw [hleft]; rfl, ih, by rw [hright]; rfl⟩

/-- A bound is ahead until it is reached. -/
theorem hasBound_of_reading_eq_done {last : Token} {level : Level} {ts rest : List Token}
    {e : Expr} {es : List ParseError} (h : (readLevel last level ts).reading = .done e rest es)
    (hts : HasBound ts) : HasBound rest := by
  have hmeets := readLevel_meets last level ts
  rw [h] at hmeets
  obtain ⟨us, rfl, hus⟩ := hmeets
  exact hts.of_append hus.bounds_eq_false

/-! ## Local readings -/

namespace Reading

variable {α β : Type}

/-- The same reading, of a list that goes on with `tail`. -/
def extend (tail : List Token) : Reading α → Reading α
  | done value rest errors => done value (rest ++ tail) errors
  | stuck rest errors => stuck (rest ++ tail) errors

/-- The reading `r'` of a list that goes on with `tail` is the reading `r` of the list itself; and
if that is stuck, then in front of a bound or at it. -/
structure IsLocal (tail : List Token) (r r' : Reading α) : Prop where
  eq_extend : r' = r.extend tail
  hasBound : ∀ rest es, r = stuck rest es → HasBound rest

namespace IsLocal

variable {tail : List Token} {r r' : Reading α}

theorem done {value : α} {rest : List Token} {es : List ParseError} :
    IsLocal tail (.done value rest es) (.done value (rest ++ tail) es) :=
  ⟨rfl, nofun⟩

theorem stuck {rest : List Token} {es : List ParseError} (h : HasBound rest) :
    IsLocal tail (.stuck rest es : Reading α) (.stuck (rest ++ tail) es) := by
  refine ⟨rfl, ?_⟩
  rintro _ _ ⟨⟩
  exact h

theorem after (h : IsLocal tail r r') (es : List ParseError) :
    IsLocal tail (r.after es) (r'.after es) := by
  obtain ⟨rfl, hbound⟩ := h
  cases r with
  | done value rest errors => exact done
  | stuck rest errors => exact stuck (hbound rest errors rfl)

theorem bind {next next' : α → List Token → Reading β} (h : IsLocal tail r r')
    (hnext : ∀ value rest es, r = .done value rest es →
      IsLocal tail (next value rest) (next' value (rest ++ tail))) :
    IsLocal tail (r.bind next) (r'.bind next') := by
  obtain ⟨rfl, hbound⟩ := h
  cases r with
  | done value rest es => exact (hnext value rest es rfl).after es
  | stuck rest es => exact stuck (hbound rest es rfl)

end IsLocal
end Reading

open Reading (IsLocal)

variable {last last' : Token} {tail : List Token}

theorem expect_isLocal {kind : Kind} {cause : ParseCause} {ts : List Token} (h : HasBound ts) :
    IsLocal tail (expect last kind cause ts).reading
      (expect last' kind cause (ts ++ tail)).reading := by
  obtain ⟨t, us, rfl⟩ := h.exists_cons
  rw [List.cons_append, reading_expect_cons, reading_expect_cons]
  split
  · exact .done
  · exact .stuck h

theorem hasBound_of_expect_eq_done {kind : Kind} {cause : ParseCause} {t : Token}
    {ts rest : List Token} {es : List ParseError} (hkind : kind.bounds = false)
    (h : (expect last kind cause ts).reading = .done t rest es) (hts : HasBound ts) :
    HasBound rest := by
  obtain ⟨u, us, rfl⟩ := hts.exists_cons
  rw [reading_expect_cons] at h
  split at h
  · next hu =>
    cases h
    exact hts.of_cons (hu ▸ hkind)
  · cases h

/-! ## Expressions -/

/-- The reader of the level is local, and so is what it reads behind a left operand. -/
def ReadsLocally (last last' : Token) (tail : List Token) (level : Level) (ts : List Token) :
    Prop :=
  HasBound ts →
    IsLocal tail (readLevel last level ts).reading (readLevel last' level (ts ++ tail)).reading ∧
    ∀ left, IsLocal tail (readMore last level left ts).reading
      (readMore last' level left (ts ++ tail)).reading

theorem readMore_isLocal {level : Level} {ts : List Token}
    (ih : ∀ level us, us.length < ts.length → ReadsLocally last last' tail level us)
    (h : HasBound ts) (left : Expr) :
    IsLocal tail (readMore last level left ts).reading
      (readMore last' level left (ts ++ tail)).reading := by
  obtain ⟨op, ts, rfl⟩ := h.exists_cons
  rw [List.cons_append, reading_readMore_cons, reading_readMore_cons]
  split
  · next hop =>
    have hts := h.of_cons (Level.bounds_of_hasOperator hop)
    refine (ih level.operand ts (length_lt_cons op ts) hts).1.bind fun right rest es hread => ?_
    have hlength := Nat.lt_succ_of_lt (Bounded.length_lt_of_done hread)
    exact (ih level rest hlength (hasBound_of_reading_eq_done hread hts)).2 _
  · exact .done

theorem readsLocally (level : Level) (ts : List Token) : ReadsLocally last last' tail level ts := by
  induction level, ts using Level.readers_induction with
  | primary ts ih =>
    intro h
    refine ⟨?_, readMore_isLocal ih h⟩
    obtain ⟨t, ts, rfl⟩ := h.exists_cons
    rw [List.cons_append, reading_readLevel_primary_cons, reading_readLevel_primary_cons]
    split
    · exact .done
    split
    · next hleft =>
      have hts := h.of_cons (by rw [hleft]; rfl)
      refine (ih .assignment ts (length_lt_cons t ts) hts).1.bind fun inner rest es hread => ?_
      exact (expect_isLocal (hasBound_of_reading_eq_done hread hts)).bind fun _ _ _ _ => .done
    · exact .stuck h
  | unary ts ih hprimary =>
    intro h
    refine ⟨?_, readMore_isLocal ih h⟩
    obtain ⟨op, ts, rfl⟩ := h.exists_cons
    rw [List.cons_append, reading_readLevel_unary_cons, reading_readLevel_unary_cons]
    split
    · next hop =>
      have hts := h.of_cons (Level.bounds_of_hasOperator hop)
      exact (ih .unary ts (length_lt_cons op ts) hts).1.bind fun _ _ _ _ => .done
    · exact (hprimary h).1
  | binary level ts hlevel ih hoperand =>
    intro h
    refine ⟨?_, readMore_isLocal ih h⟩
    rw [reading_readLevel_binary last hlevel, reading_readLevel_binary last' hlevel]
    refine (hoperand h).1.bind fun left rest es hread => ?_
    have hrest := hasBound_of_reading_eq_done hread h
    exact (ih level rest (Bounded.length_lt_of_done hread) hrest).2 _
  | assignment ts ih hequality =>
    intro h
    refine ⟨?_, readMore_isLocal ih h⟩
    rw [reading_readLevel_assignment, reading_readLevel_assignment]
    refine (hequality h).1.bind fun target rest es hread => ?_
    have hlength := Bounded.length_lt_of_done hread
    have hrest := hasBound_of_reading_eq_done hread h
    obtain ⟨t, rest, rfl⟩ := hrest.exists_cons
    dsimp only [List.cons_append]
    split
    · next hequals =>
      have hrest := hrest.of_cons (by rw [hequals]; rfl)
      have hlength := length_lt_of_cons hlength
      refine (ih .assignment rest hlength hrest).1.bind fun value rest es _ => ?_
      split <;> exact .done
    · exact .done

theorem readLevel_isLocal {level : Level} {ts : List Token} (h : HasBound ts) :
    IsLocal tail (readLevel last level ts).reading (readLevel last' level (ts ++ tail)).reading :=
  (readsLocally level ts h).1

/-! ## Sentences -/

/-- An expression and its semicolon. -/
theorem closed_isLocal {cause : ParseCause} {make : Expr → Stmt} {ts : List Token}
    (h : HasBound ts) :
    IsLocal tail
      ((readLevel last .assignment ts).reading.bind fun e rest =>
        (expect last .semicolon cause rest).reading.bind fun _ rest => .done (make e) rest [])
      ((readLevel last' .assignment (ts ++ tail)).reading.bind fun e rest =>
        (expect last' .semicolon cause rest).reading.bind fun _ rest =>
          .done (make e) rest []) := by
  refine (readLevel_isLocal h).bind fun e rest es hread => ?_
  exact (expect_isLocal (hasBound_of_reading_eq_done hread h)).bind fun _ _ _ _ => .done

theorem readVariable_isLocal {ts : List Token} (h : HasBound ts) :
    IsLocal tail (readVariable last ts).reading (readVariable last' (ts ++ tail)).reading := by
  rw [reading_readVariable, reading_readVariable]
  refine (expect_isLocal h).bind fun name rest es hread => ?_
  have hrest := hasBound_of_expect_eq_done rfl hread h
  obtain ⟨t, rest, rfl⟩ := hrest.exists_cons
  dsimp only [List.cons_append]
  split
  · next hequals => exact closed_isLocal (hrest.of_cons (by rw [hequals]; rfl))
  · exact (expect_isLocal hrest).bind fun _ _ _ _ => .done

/-- The first token of a sentence is no bound, unless the sentence is wrong from the start. -/
theorem readSentence_isLocal {t : Token} {ts : List Token}
    (h : HasBound ts ∨ t.kind = .semicolon) :
    IsLocal tail (readSentence last t ts) (readSentence last' t (ts ++ tail)) := by
  unfold readSentence
  split
  · next ht => exact readVariable_isLocal (h.resolve_right (by rw [ht]; decide))
  split
  · next ht =>
    rw [reading_readPrint, reading_readPrint]
    exact closed_isLocal (h.resolve_right (by rw [ht]; decide))
  · rw [reading_readExpression, reading_readExpression, ← List.cons_append]
    refine closed_isLocal ?_
    rcases h with ⟨u, hu, hbound⟩ | ht
    · exact ⟨u, List.mem_cons_of_mem _ hu, hbound⟩
    · exact ⟨t, List.mem_cons_self, by rw [ht]; rfl⟩

end LoxLang
