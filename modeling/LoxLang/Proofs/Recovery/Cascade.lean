import LoxLang.Proofs.Recovery.Clause
import LoxLang.Proofs.Tree.Origin

/-! # Cascades of errors

How many errors the parser finds, and where. An error that is raised makes the parser give up a
declaration and discard at least the token it blames, so that the next one is raised further on. At
the end mark there is nothing to discard: there every block that is still open gives one more error.
Each error thus has a token to pay for it, and there are never more errors than tokens
(`error_cascades_are_bounded`).

`raises` follows the readers and notes for each error that is raised where that is and how many
blocks are open around it. -/

namespace LoxLang

/-! ## Raised errors and their places -/

instance (e : ParseError) : Decidable e.Raised :=
  inferInstanceAs (Decidable (e.cause ≠ .invalidTarget))

/-- An error that was raised. -/
structure Raise where
  error : ParseError
  /-- The tokens from the blamed one on; none, if that is the end mark. -/
  rest : List Token
  /-- How many blocks are still open around the declaration that is given up. -/
  stillOpen : Nat

/-- The place of the blamed token among the tokens; the end mark stands behind all of them. -/
def Raise.position (ts : List Token) (r : Raise) : Nat := ts.length - r.rest.length

/-- A reading that is stuck raised the last of its errors. -/
def Reading.raises {α : Type} (stillOpen : Nat) : Reading α → List Raise
  | done _ _ _ => []
  | stuck rest errors => errors.getLast?.toList.map fun e => ⟨e, rest, stillOpen⟩

mutual

/-- The errors that are raised in a declaration, with `stillOpen` blocks around it. -/
def raisesInDeclaration (last : Token) (stillOpen : Nat) (t : Token) (ts : List Token) :
    List Raise :=
  if t.kind = .leftBrace then raisesInBlock last stillOpen ts
  else (readSentence last t ts).raises stillOpen
termination_by (ts.length, 1)

/-- The errors that are raised in a block behind its opening brace. -/
def raisesInBlock (last : Token) (stillOpen : Nat) (ts : List Token) : List Raise :=
  match ts with
  | [] => [⟨⟨.expectRightBrace, last⟩, [], stillOpen⟩]
  | t :: rest =>
    if t.kind = .rightBrace then []
    else
      let ⟨d, _hd⟩ := readDeclaration last t rest
      raisesInDeclaration last (stillOpen + 1) t rest ++ raisesInBlock last stillOpen d.rest
termination_by (ts.length, 0)

end

def raisesInProgram (last : Token) (ts : List Token) : List Raise :=
  match ts with
  | [] => []
  | t :: rest =>
    let ⟨d, _hd⟩ := readDeclaration last t rest
    raisesInDeclaration last 0 t rest ++ raisesInProgram last d.rest
termination_by ts.length
decreasing_by exact _hd

/-- The errors that are raised when the tokens are parsed, in order. -/
def raises (ts : List Token) : List Raise :=
  raisesInProgram (endMark ts) (ts.takeWhile (·.kind ≠ .eof))

theorem raisesInDeclaration_of_leftBrace (last : Token) (n : Nat) {t : Token}
    (ht : t.kind = .leftBrace) (ts : List Token) :
    raisesInDeclaration last n t ts = raisesInBlock last n ts := by
  rw [raisesInDeclaration, if_pos ht]

theorem raisesInDeclaration_of_ne_leftBrace (last : Token) (n : Nat) {t : Token}
    (ht : t.kind ≠ .leftBrace) (ts : List Token) :
    raisesInDeclaration last n t ts = (readSentence last t ts).raises n := by
  rw [raisesInDeclaration, if_neg ht]

theorem raisesInBlock_nil (last : Token) (n : Nat) :
    raisesInBlock last n [] = [⟨⟨.expectRightBrace, last⟩, [], n⟩] := by
  rw [raisesInBlock]

theorem raisesInBlock_cons (last : Token) (n : Nat) (t : Token) (ts : List Token) :
    raisesInBlock last n (t :: ts) =
      if t.kind = .rightBrace then []
      else raisesInDeclaration last (n + 1) t ts ++
        raisesInBlock last n (readDeclaration last t ts).1.rest := by
  rw [raisesInBlock]

theorem raisesInProgram_nil (last : Token) : raisesInProgram last [] = [] := by
  rw [raisesInProgram]

theorem raisesInProgram_cons (last t : Token) (ts : List Token) :
    raisesInProgram last (t :: ts) =
      raisesInDeclaration last 0 t ts ++
        raisesInProgram last (readDeclaration last t ts).1.rest := by
  rw [raisesInProgram]

/-! ## The order of raised errors -/

/-- What is raised behind an error: errors further on, and behind an error at the end mark one
missing brace for each of the blocks around it but the outer `n`. -/
structure Raise.Precedes (last : Token) (n : Nat) (r : Raise) (further : List Raise) : Prop where
  shorter : r.rest ≠ [] → ∀ r' ∈ further, r'.rest.length < r.rest.length
  ended : r.rest = [] → ∀ r' ∈ further, r'.rest = []
  braces : r.rest = [] →
    further.map Raise.error = List.replicate (r.stillOpen - n) ⟨.expectRightBrace, last⟩

/-- Every error precedes those behind it. -/
def InOrder (last : Token) (n : Nat) : List Raise → Prop
  | [] => True
  | r :: further => r.Precedes last n further ∧ InOrder last n further

theorem InOrder.precedes {last : Token} {n : Nat} {front further : List Raise} {r : Raise}
    (h : InOrder last n (front ++ r :: further)) : r.Precedes last n further := by
  induction front with
  | nil => exact h.1
  | cons _ front ih => exact ih h.2

theorem InOrder.append {last : Token} {m n : Nat} {rs rs' : List Raise} (h : InOrder last m rs)
    (h' : InOrder last n rs')
    (hprecedes : ∀ r ∈ rs, ∀ further, r.Precedes last m further →
      r.Precedes last n (further ++ rs')) : InOrder last n (rs ++ rs') := by
  induction rs with
  | nil => exact h'
  | cons r rs ih =>
    obtain ⟨hr, hrs⟩ := List.forall_mem_cons.mp hprecedes
    exact ⟨hr rs h.1, ih h.2 hrs⟩

/-- The errors `es` in what was read of `ts` in front of `rest`, with `n` blocks around it, and
those of them that were raised. -/
structure Cascades (last : Token) (n : Nat) (ts rest : List Token) (es : List ParseError)
    (rs : List Raise) : Prop where
  error : rs.map Raise.error = es.filter (·.Raised)
  suffix : ∀ r ∈ rs, r.rest <:+ ts
  token : ∀ r ∈ rs, r.error.token = r.rest.headD last
  order : InOrder last n rs
  /-- Every raised error is in front of `rest`, or all is read and it is at the end mark. -/
  passed : ∀ r ∈ rs, rest.length < r.rest.length ∨ (r.rest = [] ∧ rest = [] ∧ n ≤ r.stillOpen)

theorem OnlyTargets.filter_raised {es : List ParseError} (h : OnlyTargets es) :
    es.filter (·.Raised) = [] := by
  rw [List.filter_eq_nil_iff]
  intro e he hraised
  exact of_decide_eq_true hraised (h e he)

namespace Cascades

variable {last t : Token} {m n : Nat} {ts us rest : List Token} {es fs : List ParseError}
  {rs rs' : List Raise}

theorem nil (h : OnlyTargets es) : Cascades last n ts rest es [] where
  error := h.filter_raised.symm
  suffix := fun _ hr => nomatch hr
  token := fun _ hr => nomatch hr
  order := trivial
  passed := fun _ hr => nomatch hr

theorem cons (h : Cascades last n ts rest es rs) : Cascades last n (t :: ts) rest es rs :=
  { h with suffix := fun r hr => (h.suffix r hr).trans (List.suffix_cons t ts) }

/-- One error is raised, at `rest`, and reading resumes behind it. -/
theorem single {cause : ParseCause} (hes : OnlyTargets es) (hcause : cause ≠ .invalidTarget)
    (hrest : rest <:+ ts) :
    Cascades last n ts (resume rest) (es ++ [⟨cause, rest.headD last⟩])
      [⟨⟨cause, rest.headD last⟩, rest, n⟩] where
  error := by
    rw [List.filter_append, hes.filter_raised, List.nil_append, List.filter_cons_of_pos]
    · rfl
    · exact decide_eq_true hcause
  suffix := by simpa using hrest
  token := by simp
  order := by
    refine ⟨⟨fun _ => List.forall_mem_nil _, fun _ => List.forall_mem_nil _, fun _ => ?_⟩, trivial⟩
    rw [Nat.sub_self]
    rfl
  passed := by
    intro r hr
    cases List.mem_singleton.mp hr
    cases rest with
    | nil => exact .inr ⟨rfl, rfl, Nat.le_refl n⟩
    | cons u us => exact .inl (length_resume_lt (Nat.le_refl _) (Nat.succ_pos _))

/-- What was read one after the other. Where the first part ends at the end mark, the second one
raises the errors for the blocks that are not around it as well. -/
theorem append (h : Cascades last m ts us es rs) (hus : Cascades last n us rest fs rs')
    (hsuffix : us <:+ ts) (hrest : rest <:+ us) (hmn : n ≤ m)
    (hend : us = [] → rs'.map Raise.error = List.replicate (m - n) ⟨.expectRightBrace, last⟩) :
    Cascades last n ts rest (es ++ fs) (rs ++ rs') where
  error := by rw [List.map_append, List.filter_append, h.error, hus.error]
  suffix := by
    rw [List.forall_mem_append]
    exact ⟨h.suffix, fun r hr => (hus.suffix r hr).trans hsuffix⟩
  token := by
    rw [List.forall_mem_append]
    exact ⟨h.token, hus.token⟩
  order := by
    refine h.order.append hus.order fun r hr further hprecedes => ?_
    rcases h.passed r hr with hlt | ⟨hnil, rfl, hopen⟩
    · have hne : r.rest ≠ [] := List.length_pos_iff.mp (Nat.zero_lt_of_lt hlt)
      refine ⟨fun _ => ?_, fun hnil => absurd hnil hne, fun hnil => absurd hnil hne⟩
      exact List.forall_mem_append.mpr ⟨hprecedes.shorter hne, fun r' hr' =>
        Nat.lt_of_le_of_lt (hus.suffix r' hr').length_le hlt⟩
    · refine ⟨fun hne => absurd hnil hne, fun _ => ?_, fun _ => ?_⟩
      · exact List.forall_mem_append.mpr ⟨hprecedes.ended hnil, fun r' hr' =>
          List.suffix_nil.mp (hus.suffix r' hr')⟩
      · have hsum : (r.stillOpen - m) + (m - n) = r.stillOpen - n := by omega
        rw [List.map_append, hprecedes.braces hnil, hend rfl, List.replicate_append_replicate, hsum]
  passed := by
    rw [List.forall_mem_append]
    refine ⟨fun r hr => ?_, hus.passed⟩
    rcases h.passed r hr with hlt | ⟨hnil, rfl, hopen⟩
    · exact .inl (Nat.lt_of_le_of_lt hrest.length_le hlt)
    · exact .inr ⟨hnil, List.suffix_nil.mp hrest, Nat.le_trans hmn hopen⟩

end Cascades

theorem SentenceOff.onlyTargets {ts rest : List Token} {s : Stmt} {es : List ParseError}
    (h : SentenceOff ts s rest es) : OnlyTargets es := by
  obtain ⟨us, -, hus⟩ := h
  exact hus.exists_close.2

theorem Halts.cascades {last : Token} {ts rest : List Token} {es : List ParseError}
    (h : Halts last ts rest es) (n : Nat) :
    Cascades last n ts (resume rest) es ((.stuck rest es : Reading Stmt).raises n) := by
  cases h with
  | @intro front _ fs cause htaken hcause =>
    rw [Reading.raises, List.getLast?_concat]
    exact .single htaken.onlyTargets hcause (List.suffix_append front rest)

/-- A block is left out only at the end mark, so that what follows it is what the block left. -/
theorem readDeclaration_block (last : Token) {t : Token} (ht : t.kind = .leftBrace)
    (ts : List Token) :
    (readDeclaration last t ts).1.rest = (readBlock last ts).reading.rest ∧
    (readDeclaration last t ts).1.errors = (readBlock last ts).reading.errors := by
  have hdrawn := (declarations_drawn last).1 ts
  rw [readDeclaration_of_leftBrace last ht]
  cases hread : (readBlock last ts).reading with
  | done ss rest es => exact ⟨rfl, List.append_nil es⟩
  | stuck rest es =>
    rw [hread] at hdrawn
    obtain ⟨rfl, -⟩ := hdrawn
    exact ⟨rfl, rfl⟩

theorem reading_readBlock_rest (last : Token) {t : Token} (ht : t.kind ≠ .rightBrace)
    (ts : List Token) :
    let d := (readDeclaration last t ts).1
    (readBlock last (t :: ts)).reading.rest = (readBlock last d.rest).reading.rest ∧
    (readBlock last (t :: ts)).reading.errors =
      d.errors ++ (readBlock last d.rest).reading.errors := by
  rw [reading_readBlock_cons, if_neg ht]
  generalize (readDeclaration last t ts).1 = d
  dsimp only
  cases (readBlock last d.rest).reading with
  | done ss rest es => exact ⟨rfl, congrArg (d.errors ++ ·) (List.append_nil es)⟩
  | stuck rest es => exact ⟨rfl, rfl⟩

theorem rest_readBlock_suffix (last : Token) (ts : List Token) :
    (readBlock last ts).reading.rest <:+ ts := by
  have hdrawn := (declarations_drawn last).1 ts
  cases hread : (readBlock last ts).reading with
  | done ss rest es =>
    rw [hread] at hdrawn
    exact hdrawn.suffix
  | stuck rest es =>
    rw [hread] at hdrawn
    obtain ⟨rfl, hdrawn⟩ := hdrawn
    exact hdrawn.suffix

theorem declarations_cascade (last : Token) :
    (∀ ts n, let r := (readBlock last ts).reading
      Cascades last n ts r.rest r.errors (raisesInBlock last n ts)) ∧
    ∀ t ts n, let d := (readDeclaration last t ts).1
      Cascades last n (t :: ts) d.rest d.errors (raisesInDeclaration last n t ts) := by
  refine declarations_induction last ?_ ?_ ?_ ?_ ?_
  · intro t ts ht n
    rw [readDeclaration_of_ne_leftBrace last ht, raisesInDeclaration_of_ne_leftBrace last n ht]
    have hmeets := readSentence_halts last t ts
    cases hread : readSentence last t ts with
    | done s rest es =>
      rw [hread] at hmeets
      exact .nil (SentenceOff.onlyTargets hmeets)
    | stuck rest es =>
      rw [hread] at hmeets
      exact hmeets.cascades n
  · intro t ts ht hblock n
    obtain ⟨hrest, herrors⟩ := readDeclaration_block last ht ts
    dsimp only
    rw [hrest, herrors, raisesInDeclaration_of_leftBrace last n ht]
    exact (hblock n).cons
  · intro n
    rw [reading_readBlock_nil, raisesInBlock_nil]
    exact Cascades.single .nil (by decide) (List.suffix_refl [])
  · intro t ts ht n
    rw [reading_readBlock_cons, if_pos ht, raisesInBlock_cons, if_pos ht]
    exact .nil .nil
  · intro t ts ht hd hblock n
    obtain ⟨hrest, herrors⟩ := reading_readBlock_rest last ht ts
    dsimp only
    rw [hrest, herrors, raisesInBlock_cons, if_neg ht]
    -- A declaration in the block has one block more around it. If it ends at the end mark, the block
    -- does so too, and raises the one error that is missing from `n + 1` blocks to `n`.
    refine (hd (n + 1)).append (hblock n) ((declarations_drawn last).2 t ts).suffix
      (rest_readBlock_suffix last _) (Nat.le_succ n) fun hnil => ?_
    rw [hnil, raisesInBlock_nil, Nat.add_sub_cancel_left]
    rfl

theorem readProgram_cascades (last : Token) (ts : List Token) :
    Cascades last 0 ts [] (readProgram last ts).errors (raisesInProgram last ts) := by
  induction ts using program_induction last with
  | nil =>
    rw [readProgram_nil, raisesInProgram_nil]
    exact .nil .nil
  | cons t ts ih =>
    rw [readProgram_cons, raisesInProgram_cons]
    refine ((declarations_cascade last).2 t ts 0).append ih
      ((declarations_drawn last).2 t ts).suffix List.nil_suffix (Nat.le_refl 0) fun hnil => ?_
    rw [hnil, raisesInProgram_nil]
    rfl

/-! ## The number of errors -/

/-- A phrase has fewer errors than tokens: each is paid for by its equals sign. -/
theorem Phrase.length_errors_lt {level : Level} {ts : List Token} {e : Expr}
    {es : List ParseError} (h : Phrase level ts e es) : es.length < ts.length := by
  induction h with
  | assign _ _ _ ih₁ ih₂ | invalidTarget _ _ _ _ ih₁ ih₂ | binary _ _ _ _ ih₁ ih₂ =>
    simp only [List.length_append, List.length_cons, List.length_nil]
    omega
  | equality _ ih | operand _ _ ih | primary _ ih => exact ih
  | unary _ _ ih => exact Nat.lt_succ_of_lt ih
  | atom => exact Nat.zero_lt_one
  | grouping _ _ _ ih =>
    simp only [List.length_append, List.length_cons, List.length_nil]
    omega

theorem Taken.length_errors_lt {ts : List Token} {es : List ParseError} (h : Taken ts es) :
    es.length < ts.length ∨ (ts = [] ∧ es = []) := by
  induction h with
  | nil => exact .inr ⟨rfl, rfl⟩
  | token _ ih =>
    left
    rcases ih with hlt | ⟨rfl, rfl⟩
    · exact Nat.lt_succ_of_lt hlt
    · exact Nat.zero_lt_one
  | phrase h _ ih =>
    left
    have hphrase := h.length_errors_lt
    simp only [List.length_append]
    rcases ih with hlt | ⟨rfl, rfl⟩
    · omega
    · exact hphrase

theorem Sentence.length_errors_lt {ts : List Token} {s : Stmt} {es : List ParseError}
    (h : Sentence ts s es) : es.length < ts.length := by
  cases h with
  | var => exact Nat.zero_lt_succ _
  | varInit _ _ _ he | print _ he | expression he =>
    have hphrase := he.length_errors_lt
    simp only [List.length_append, List.length_cons, List.length_nil]
    omega

/-- The error that is raised is paid for by the first token that was taken, or by the blamed token
if none was. -/
theorem Halts.length_errors_le {last : Token} {ts rest : List Token} {es : List ParseError}
    (h : Halts last ts rest es) (hts : ts ≠ []) :
    es.length + (resume rest).length ≤ ts.length := by
  cases h with
  | @intro front _ fs cause htaken =>
    rw [List.length_append, List.length_append, List.length_singleton]
    rcases htaken.length_errors_lt with hlt | ⟨rfl, rfl⟩
    · have hresume := (resume_suffix rest).length_le
      omega
    · have hresume := length_resume_lt (Nat.le_refl rest.length) (List.length_pos_iff.mpr hts)
      simp only [List.length_nil]
      omega

/-- What is read has no more errors than tokens. A block that never ends has one more, for which its
opening brace pays. -/
theorem declarations_errors_le (last : Token) :
    (∀ ts, (readBlock last ts).reading.Meets
      (fun _ rest es => es.length + rest.length ≤ ts.length)
      fun rest es => rest = [] ∧ es.length ≤ ts.length + 1) ∧
    ∀ t ts, let d := (readDeclaration last t ts).1
      d.errors.length + d.rest.length ≤ (t :: ts).length := by
  refine declarations_induction last ?_ ?_ ?_ ?_ ?_
  · intro t ts ht
    rw [readDeclaration_of_ne_leftBrace last ht]
    have hmeets := readSentence_halts last t ts
    cases hread : readSentence last t ts with
    | done s rest es =>
      rw [hread] at hmeets
      obtain ⟨us, hus, hs⟩ := hmeets
      have hlt := hs.length_errors_lt
      rw [hus, List.length_append]
      exact Nat.add_le_add_right (Nat.le_of_lt hlt) _
    | stuck rest es =>
      rw [hread] at hmeets
      exact hmeets.length_errors_le (List.cons_ne_nil t ts)
  · intro t ts ht hblock
    obtain ⟨hrest, herrors⟩ := readDeclaration_block last ht ts
    dsimp only
    rw [hrest, herrors]
    cases hread : (readBlock last ts).reading with
    | done ss rest es =>
      rw [hread] at hblock
      exact Nat.le_succ_of_le hblock
    | stuck rest es =>
      -- The opening brace `t` pays for the missing closing one.
      rw [hread] at hblock
      obtain ⟨rfl, hle⟩ := hblock
      exact hle
  · rw [reading_readBlock_nil]
    exact ⟨rfl, Nat.le_refl 1⟩
  · intro t ts ht
    rw [reading_readBlock_cons, if_pos ht]
    exact Nat.le_trans (Nat.le_of_eq (Nat.zero_add _)) (Nat.le_succ _)
  · intro t ts ht hd hblock
    rw [reading_readBlock_cons, if_neg ht]
    dsimp only at hd
    refine hblock.bind_after ?_ ?_
    · rintro rest es ⟨rfl, hle⟩
      refine ⟨rfl, ?_⟩
      rw [List.length_append]
      omega
    · intro ss rest es _ hle
      simp only [Reading.after, Reading.Meets, List.append_nil, List.length_append]
      omega

theorem readProgram_errors_le (last : Token) (ts : List Token) :
    (readProgram last ts).errors.length ≤ ts.length := by
  induction ts using program_induction last with
  | nil =>
    rw [readProgram_nil]
    exact Nat.le_refl 0
  | cons t ts ih =>
    rw [readProgram_cons]
    have hd := (declarations_errors_le last).2 t ts
    dsimp only at hd ⊢
    rw [List.length_append]
    omega

theorem Raise.position_lt_iff {ts : List Token} {r r' : Raise} (h : r.rest <:+ ts)
    (h' : r'.rest <:+ ts) : r.position ts < r'.position ts ↔ r'.rest.length < r.rest.length := by
  have hle := h.length_le
  have hle' := h'.length_le
  simp only [Raise.position]
  omega

theorem Raise.position_eq_length_iff {ts : List Token} {r : Raise} (h : r.rest <:+ ts) :
    r.position ts = ts.length ↔ r.rest = [] := by
  have hle := h.length_le
  rw [← List.length_eq_zero_iff, Raise.position]
  omega

theorem Raise.getElem?_position {last : Token} {ts : List Token} {r : Raise} (h : r.rest <:+ ts) :
    (ts ++ [last])[r.position ts]? = some (r.rest.headD last) := by
  obtain ⟨front, rfl⟩ := h
  have hposition : r.position (front ++ r.rest) = front.length := by simp [Raise.position]
  rw [hposition, List.append_assoc, List.getElem?_append_right (Nat.le_refl _), Nat.sub_self]
  cases r.rest <;> rfl

/-- There are at most as many errors as tokens in front of the end mark. Each error that is raised
blames the token at its place, and the next one a token further on; behind an error at the end mark
there are only errors at the end mark, one for each block that is still open. -/
theorem error_cascades_are_bounded (ts : List Token) :
    let body := ts.takeWhile (·.kind ≠ .eof)
    (parse ts).errors.length ≤ body.length ∧
    (raises ts).map Raise.error = (parse ts).errors.filter (·.Raised) ∧
    (∀ r ∈ raises ts, (body ++ [endMark ts])[r.position body]? = some r.error.token) ∧
    ∀ front r further, raises ts = front ++ r :: further →
      (r.position body < body.length → ∀ r' ∈ further, r.position body < r'.position body) ∧
      (r.position body = body.length → (∀ r' ∈ further, r'.position body = body.length) ∧
        further.map Raise.error =
          List.replicate r.stillOpen ⟨.expectRightBrace, endMark ts⟩) := by
  intro body
  have hcascades : Cascades (endMark ts) 0 body [] (parse ts).errors (raises ts) :=
    readProgram_cascades (endMark ts) body
  refine ⟨readProgram_errors_le (endMark ts) body, hcascades.error, fun r hr => ?_,
    fun front r further hraises => ?_⟩
  · rw [hcascades.token r hr]
    exact Raise.getElem?_position (hcascades.suffix r hr)
  · obtain ⟨-, hsuffix, -, horder, -⟩ := hcascades
    rw [hraises] at hsuffix horder
    obtain ⟨-, htail⟩ := List.forall_mem_append.mp hsuffix
    obtain ⟨hr, hfurther⟩ := List.forall_mem_cons.mp htail
    obtain ⟨hshorter, hended, hbraces⟩ := horder.precedes
    rw [Raise.position_eq_length_iff hr]
    refine ⟨fun hlt r' hr' => ?_, fun hnil => ⟨fun r' hr' => ?_, hbraces hnil⟩⟩
    · have hne := mt (Raise.position_eq_length_iff hr).mpr (Nat.ne_of_lt hlt)
      exact (Raise.position_lt_iff hr (hfurther r' hr')).mpr (hshorter hne r' hr')
    · exact (Raise.position_eq_length_iff (hfurther r' hr')).mpr (hended hnil r' hr')

end LoxLang
