import Mathlib.Data.List.TakeWhile
import LoxLang.Proofs.Cursor.Place
import LoxLang.Proofs.Recovery.Keyword

/-! # The walk is the parser

Each part of the walk reads what its reader reads, with the cursor in front of what the reader
leaves (`Reads`). The readers take their tokens from lists that get shorter, so the walk, which
takes the same tokens, ends as they do; and a declaration leaves a shorter list behind even when it
is given up, so it moves the cursor forward. -/

namespace LoxLang

variable {tokens body us : List Token} {last t : Token} {α β : Type}

namespace Reading

/-- What a walk comes to that reads this. -/
def result : Reading α → Except Stop α
  | done value _ _ => .ok value
  | stuck _ _ => .error .syntaxError

@[simp]
theorem result_after (r : Reading α) (es : List ParseError) : (r.after es).result = r.result := by
  cases r <;> rfl

@[simp]
theorem errors_after (r : Reading α) (es : List ParseError) :
    (r.after es).errors = es ++ r.errors := by
  cases r <;> rfl

@[simp]
theorem rest_after (r : Reading α) (es : List ParseError) : (r.after es).rest = r.rest := by
  cases r <;> rfl

theorem bind_done_eq (r : Reading α) : (r.bind fun value rest => .done value rest []) = r := by
  cases r with
  | done value rest es => rw [bind_done, after, List.append_nil]
  | stuck rest es => rfl

theorem bind_done_bind_done (r : Reading α) {γ : Type} (g : α → β) (h : β → γ) :
    ((r.bind fun value rest => .done (g value) rest []).bind fun value rest =>
      .done (h value) rest []) = r.bind fun value rest => .done (h (g value)) rest [] := by
  cases r with
  | done value rest es => rw [bind_done, bind_after, bind_done, bind_done, after_nil]
  | stuck rest es => rfl

end Reading

/-- From any cursor as in `P` this part of a walk reads `r` off the rest of `body`, if there is
enough fuel. -/
def Reads (body : List Token) (P : Cursor → Prop) (m : Nat → Walk α) (r : Reading α) : Prop :=
  Leads P m r.result r.errors (At body r.rest)

namespace Reads

variable {P Q : Cursor → Prop} {m : Nat → Walk α} {f : Nat → α → Walk β} {r : Reading α}

theorem pure (body us : List Token) (v : α) :
    Reads body (At body us) (fun _ => pure v) (.done v us []) :=
  Leads.pure _ v

theorem of_behind (h : Reads body (At body us) m r) : Reads body (Behind body t us) m r :=
  Leads.mono h Behind.at fun _ h => h

theorem bind {next : α → List Token → Reading β} (hm : Reads body P m r)
    (hf : ∀ v rest es, r = .done v rest es →
      Reads body (At body rest) (fun fuel => f fuel v) (next v rest)) :
    Reads body P (fun fuel => m fuel >>= f fuel) (r.bind next) := by
  cases r with
  | done v rest es =>
    unfold Reads
    rw [Reading.bind_done, Reading.result_after, Reading.errors_after, Reading.rest_after]
    exact Leads.bind hm (hf v rest es rfl)
  | stuck rest es => exact Leads.bind_error hm

/-- A phrase that is read behind some errors. -/
theorem after {v : α} {es : List ParseError} {r : Reading β} (hm : Leads P m (.ok v) es Q)
    (hf : Reads body Q (fun fuel => f fuel v) r) :
    Reads body P (fun fuel => m fuel >>= f fuel) (r.after es) := by
  unfold Reads
  rw [Reading.result_after, Reading.errors_after, Reading.rest_after]
  exact Leads.bind hm hf

theorem map (hm : Reads body P m r) (g : α → β) :
    Reads body P (fun fuel => m fuel >>= fun v => Pure.pure (g v))
      (r.bind fun v rest => .done (g v) rest []) :=
  hm.bind fun v rest _ _ => pure body rest (g v)

end Reads

namespace Walk

variable {accepts : Kind → Bool} {yes no : Nat → Walk α} {f : Nat → Token → Walk α}
  {r : Reading α}

theorem reads_previous (hends : Ends tokens body last)
    (h : Reads body (Behind body t us) (fun fuel => f fuel t) r) :
    Reads body (Behind body t us) (fun fuel => previous tokens >>= f fuel) r :=
  (leads_previous hends).bind_nil h

/-- The next token decides which way a walk goes. -/
theorem reads_accept (hends : Ends tokens body last)
    (hyes : accepts t.kind = true → Reads body (Behind body t us) yes r)
    (hno : accepts t.kind = false → Reads body (At body (t :: us)) no r) :
    Reads body (At body (t :: us))
      (fun fuel => accept tokens accepts >>= fun b => if b = true then yes fuel else no fuel)
      r := by
  cases ht : accepts t.kind with
  | true => exact (leads_accept hends ht).bind_nil (hyes ht)
  | false =>
    have hus : (t :: us).head?.any (accepts ·.kind) = false := ht
    exact (leads_accept_of_not hends hus).bind_nil (hno ht)

theorem reads_accept_nil (hends : Ends tokens body last) (hno : Reads body (At body []) no r) :
    Reads body (At body [])
      (fun fuel => accept tokens accepts >>= fun b => if b = true then yes fuel else no fuel) r :=
  (leads_accept_of_not hends rfl).bind_nil hno

theorem reads_fail (hends : Ends tokens body last) (cause : ParseCause) (us : List Token) :
    Reads body (At body us) (fun _ => (fail tokens cause : Walk α))
      (.stuck us [⟨cause, us.headD last⟩]) :=
  leads_fail hends cause

theorem reads_consume (hends : Ends tokens body last) (kind : Kind) (cause : ParseCause)
    (us : List Token) :
    Reads body (At body us) (fun _ => consume tokens kind cause)
      (expect last kind cause us).reading := by
  refine (leads_check hends).bind_nil ?_
  cases us with
  | nil => exact reads_fail hends cause []
  | cons t us =>
    rw [reading_expect_cons, List.head?_cons, Option.any_some]
    by_cases ht : t.kind = kind
    · rw [if_pos ht, if_pos (decide_eq_true ht)]
      exact Leads.mono (leads_advance hends) (fun _ h => h) Behind.at
    · rw [if_neg ht, if_neg (by simpa using ht)]
      exact reads_fail hends cause (t :: us)

/-! ## Expressions -/

theorem reads_assign (us : List Token) (target : Expr) (equals : Token) (value : Expr) :
    Reads body (At body us) (fun _ => assign target equals value)
      (match target with
      | .variable name => .done (.assign name value) us []
      | _ => .done target us [⟨.invalidTarget, equals⟩]) := by
  cases target with
  | «variable» name => exact .pure body us _
  | literal | unary | binary | grouping | assign =>
    exact (leads_report _).bind (.pure _ _)

/-- The walk reads the level as its reader does, and so it does with what follows a left operand. -/
def FollowsLevel (tokens body : List Token) (last : Token) (l : Level) (us : List Token) : Prop :=
  Reads body (At body us) (fun fuel => level tokens fuel l) (readLevel last l us).reading ∧
  ∀ left, Reads body (At body us) (fun fuel => more tokens fuel l left)
    (readMore last l left us).reading

theorem reads_more (hends : Ends tokens body last) {l : Level}
    (ih : ∀ l vs, vs.length < us.length → FollowsLevel tokens body last l vs) (left : Expr) :
    Reads body (At body us) (fun fuel => more tokens fuel l left)
      (readMore last l left us).reading := by
  refine Leads.of_succ ?_
  simp only [more]
  cases us with
  | nil =>
    rw [reading_readMore_nil]
    exact reads_accept_nil hends (.pure body [] left)
  | cons op us =>
    rw [reading_readMore_cons]
    refine reads_accept hends (fun hop => ?_) fun hop => ?_
    · rw [if_pos hop]
      refine reads_previous hends (Reads.of_behind ?_)
      refine (ih l.operand us (length_lt_cons op us)).1.bind fun right rest es hread => ?_
      have hlength := Nat.lt_succ_of_lt (Bounded.length_lt_of_done hread)
      exact (ih l rest hlength).2 (.binary left op right)
    · rw [hop]
      exact .pure body (op :: us) left

theorem reads_primary_cons (hends : Ends tokens body last)
    (hinner : Reads body (At body us) (fun fuel => level tokens fuel .assignment)
      (readLevel last .assignment us).reading) :
    Reads body (At body (t :: us)) (fun fuel => level tokens fuel .primary)
      (readLevel last .primary (t :: us)).reading := by
  have hdone {e : Expr} (h : t.atom? = some e) :
      Reads body (Behind body t us) (fun _ => Pure.pure e)
        (readLevel last .primary (t :: us)).reading := by
    rw [reading_readLevel_primary_cons, h]
    exact (Reads.pure body us e).of_behind
  refine Leads.of_succ ?_
  simp only [level]
  refine reads_accept hends (fun h => hdone ?_) fun hfalse => ?_
  · rw [Token.atom?, of_decide_eq_true h]
  refine reads_accept hends (fun h => hdone ?_) fun htrue => ?_
  · rw [Token.atom?, of_decide_eq_true h]
  refine reads_accept hends (fun h => hdone ?_) fun hnil => ?_
  · rw [Token.atom?, of_decide_eq_true h]
  refine reads_accept hends (fun h => reads_previous hends (hdone ?_)) fun hliteral => ?_
  · unfold Token.atom?
    rcases Bool.or_eq_true_iff.mp h with h | h <;> rw [of_decide_eq_true h]
  refine reads_accept hends (fun h => reads_previous hends (hdone ?_)) fun hname => ?_
  · rw [Token.atom?, of_decide_eq_true h]
  have hnone : t.atom? = none := by
    unfold Token.atom?
    split <;> simp_all
  rw [reading_readLevel_primary_cons, hnone]
  dsimp only
  refine reads_accept hends (fun h => ?_) fun hparen => ?_
  · rw [if_pos (of_decide_eq_true h)]
    refine Reads.of_behind (hinner.bind fun inner rest _ _ => ?_)
    exact (reads_consume hends _ _ rest).map _
  · rw [if_neg (of_decide_eq_false hparen)]
    exact reads_fail hends _ (t :: us)

theorem followsLevel (hends : Ends tokens body last) (l : Level) (us : List Token) :
    FollowsLevel tokens body last l us := by
  induction l, us using Level.readers_induction with
  | primary us ih =>
    refine ⟨?_, reads_more hends ih⟩
    cases us with
    | nil =>
      rw [reading_readLevel_primary_nil]
      refine Leads.of_succ ?_
      simp only [level]
      iterate 6 refine reads_accept_nil hends ?_
      exact reads_fail hends _ []
    | cons t us => exact reads_primary_cons hends (ih .assignment us (length_lt_cons t us)).1
  | unary us ih hprimary =>
    refine ⟨?_, reads_more hends ih⟩
    refine Leads.of_succ ?_
    simp only [level]
    cases us with
    | nil =>
      rw [reading_readLevel_unary_nil]
      exact reads_accept_nil hends hprimary.1
    | cons op us =>
      rw [reading_readLevel_unary_cons]
      refine reads_accept hends (fun hop => ?_) fun hop => ?_
      · rw [if_pos hop]
        refine reads_previous hends (Reads.of_behind ?_)
        exact (ih .unary us (length_lt_cons op us)).1.map _
      · rw [hop]
        exact hprimary.1
  | binary l us hl ih hoperand =>
    refine ⟨?_, reads_more hends ih⟩
    have hlevel (fuel : Nat) : level tokens (fuel + 1) l = (do
        let left ← level tokens fuel l.operand
        more tokens fuel l left) := by
      cases l with
      | equality | comparison | term | factor => rw [level] <;> exact nofun
      | assignment | unary | primary => cases hl
    rw [reading_readLevel_binary _ hl]
    refine Leads.of_succ ?_
    simp only [hlevel]
    refine hoperand.1.bind fun left rest es hread => ?_
    exact (ih l rest (Bounded.length_lt_of_done hread)).2 left
  | assignment us ih hequality =>
    refine ⟨?_, reads_more hends ih⟩
    rw [reading_readLevel_assignment]
    refine Leads.of_succ ?_
    simp only [level]
    refine hequality.1.bind fun target rest es hread => ?_
    cases rest with
    | nil => exact reads_accept_nil hends (.pure body [] target)
    | cons t rest =>
      have hlength := length_lt_of_cons (Bounded.length_lt_of_done hread)
      dsimp only
      refine reads_accept hends (fun ht => ?_) fun ht => ?_
      · rw [if_pos (of_decide_eq_true ht)]
        refine reads_previous hends (Reads.of_behind ?_)
        refine (ih .assignment rest hlength).1.bind fun value rest _ _ => ?_
        exact reads_assign rest target t value
      · rw [if_neg (of_decide_eq_false ht)]
        exact .pure body (t :: rest) target

/-! ## Statements -/

theorem reads_level (hends : Ends tokens body last) (l : Level) (us : List Token) :
    Reads body (At body us) (fun fuel => level tokens fuel l) (readLevel last l us).reading :=
  (followsLevel hends l us).1

theorem reads_closed (hends : Ends tokens body last) (make : Expr → Stmt) (cause : ParseCause)
    (us : List Token) :
    Reads body (At body us) (fun fuel => closed tokens fuel make cause)
      ((readLevel last .assignment us).reading.bind fun e rest =>
        (expect last .semicolon cause rest).reading.bind fun _ rest => .done (make e) rest []) :=
  (reads_level hends .assignment us).bind fun e rest _ _ =>
    (reads_consume hends _ _ rest).map fun _ => make e

theorem reads_variableDeclaration (hends : Ends tokens body last) (us : List Token) :
    Reads body (At body us) (variableDeclaration tokens) (readVariable last us).reading := by
  rw [reading_readVariable]
  refine (reads_consume hends _ _ us).bind fun name rest _ _ => ?_
  cases rest with
  | nil => exact reads_accept_nil hends ((reads_consume hends _ _ []).map _)
  | cons t rest =>
    dsimp only
    refine reads_accept hends (fun ht => ?_) fun ht => ?_
    · rw [if_pos (of_decide_eq_true ht)]
      exact (reads_closed hends _ _ rest).of_behind
    · rw [if_neg (of_decide_eq_false ht)]
      exact (reads_consume hends _ _ (t :: rest)).map _

/-- A statement that is no block. -/
theorem reads_statement (hends : Ends tokens body last) (ht : t.kind ≠ .leftBrace) :
    Reads body (At body (t :: us)) (statement tokens) (readSentence last t us) := by
  rw [readSentence]
  refine Leads.of_succ ?_
  simp only [statement]
  refine reads_accept hends (fun hvar => ?_) fun hvar => ?_
  · rw [if_pos (of_decide_eq_true hvar)]
    exact (reads_variableDeclaration hends us).of_behind
  rw [if_neg (of_decide_eq_false hvar)]
  refine reads_accept hends (fun hprint => ?_) fun hprint => ?_
  · rw [if_pos (of_decide_eq_true hprint), reading_readPrint]
    exact (reads_closed hends _ _ us).of_behind
  rw [if_neg (of_decide_eq_false hprint), reading_readExpression]
  refine reads_accept hends (fun hbrace => absurd (of_decide_eq_true hbrace) ht) fun _ => ?_
  exact reads_closed hends _ _ (t :: us)

theorem reads_statement_block (hends : Ends tokens body last) (ht : t.kind = .leftBrace)
    (hblock : Reads body (At body us) (fun fuel => block tokens fuel [])
      (readBlock last us).reading) :
    Reads body (At body (t :: us)) (statement tokens)
      ((readBlock last us).reading.bind fun ss rest => .done (.block ss) rest []) := by
  refine Leads.of_succ ?_
  simp only [statement]
  refine reads_accept hends (fun h => ?_) fun _ => ?_
  · simp [ht] at h
  refine reads_accept hends (fun h => ?_) fun _ => ?_
  · simp [ht] at h
  refine reads_accept hends (fun _ => (hblock.map _).of_behind) fun h => ?_
  simp [ht] at h

/-! ## Declarations -/

theorem leads_skip (hends : Ends tokens body last) (t : Token) (us : List Token) :
    Leads (Behind body t us) (skip tokens) (.ok ()) [] (At body (resumeBehind t us)) := by
  induction us generalizing t with
  | nil =>
    refine Leads.of_succ ?_
    simp only [skip]
    refine (leads_isAtEnd hends Behind.at).bind_nil ?_
    exact .pure_of_imp Behind.at ()
  | cons u us ih =>
    rw [resumeBehind]
    refine Leads.of_succ ?_
    simp only [skip]
    refine (leads_isAtEnd hends Behind.at).bind_nil ?_
    refine (leads_previous hends).bind_nil ?_
    by_cases ht : t.kind = .semicolon
    · rw [if_pos (.inl ht)]
      simp only [if_pos ht]
      exact .pure_of_imp Behind.at ()
    simp only [if_neg ht]
    refine (leads_peek hends Behind.at).bind_nil ?_
    rw [List.headD_cons]
    by_cases hu : u.kind.startsStatement = true
    · rw [if_pos (.inr hu)]
      simp only [if_pos hu]
      exact .pure_of_imp Behind.at ()
    · rw [if_neg (not_or.mpr ⟨ht, hu⟩)]
      simp only [if_neg hu]
      exact (Leads.mono (leads_advance hends) Behind.at fun _ h => h).bind_nil (ih u)

/-- Resuming takes a token, unless the end mark is next; then some token was taken before. -/
theorem leads_synchronize (hends : Ends tokens body last) (hne : body ≠ []) (us : List Token) :
    Leads (At body us) (synchronize tokens) (.ok ()) [] (At body (resume us)) := by
  cases us with
  | nil =>
    -- The cursor stays at the end mark and looks back, at a token because there are some.
    intro c hc
    obtain ⟨t, ht⟩ := hc.exists_behind hne
    exact (leads_advance_nil hends).bind_nil (leads_skip hends t []) c ht
  | cons t us => exact (leads_advance hends).bind_nil (leads_skip hends t us)

/-- A statement is read, or it is given up and reading resumes. -/
theorem leads_tryCatch_statement (hends : Ends tokens body last) (hne : body ≠ [])
    {P : Cursor → Prop} {r : Reading Stmt} (hr : Reads body P (statement tokens) r) :
    Leads P (fun fuel => tryCatch (do return some (← statement tokens fuel)) (recover tokens fuel))
      (.ok (Declaration.ofReading r).stmt?) (Declaration.ofReading r).errors
      (At body (Declaration.ofReading r).rest) := by
  cases r with
  | done s rest es => exact (Leads.bind_of_nil hr (.pure _ (some s))).tryCatch
  | stuck rest es =>
    refine Leads.tryCatch_error (Leads.bind_error hr) ?_
    exact (leads_synchronize hends hne rest).bind_nil (.pure _ none)

/-- A declaration moves the cursor forward, whether its statement is read or given up. -/
theorem leads_declaration (hends : Ends tokens body last) {r : Reading Stmt}
    (hr : (readDeclaration last t us).1 = .ofReading r)
    (hstatement : Reads body (At body (t :: us)) (statement tokens) r) :
    Leads (At body (t :: us)) (declaration tokens) (.ok (readDeclaration last t us).1.stmt?)
      (readDeclaration last t us).1.errors (At body (readDeclaration last t us).1.rest) := by
  refine Leads.of_succ ?_
  simp only [declaration]
  refine Leads.bind_get fun c hc => ?_
  have hne : body ≠ [] := List.ne_nil_of_mem (hc.mem (List.mem_cons_self ..))
  -- The reader leaves fewer tokens than it was given: counted from the end, that is progress.
  have hstart : c.current + (readDeclaration last t us).1.rest.length < body.length := by
    rw [← hc.current_add_length]
    exact Nat.add_lt_add_left (readDeclaration last t us).2 _
  rw [hr] at hstart ⊢
  refine (leads_tryCatch_statement hends hne hstatement).bind_of_nil ?_
  exact (leads_noteDeclaration hstart).bind_nil (.pure _ _)

/-- The loop of a block ends at its brace, and at the end mark. -/
theorem leads_blockEnds (hends : Ends tokens body last) (us : List Token) :
    Leads (At body us) (fun _ => check tokens (· = .rightBrace) <||> isAtEnd tokens)
      (.ok (us.head?.all (·.kind = .rightBrace))) [] (At body us) := by
  refine (leads_check hends).bind_nil ?_
  cases us with
  | nil => exact leads_isAtEnd hends fun _ h => h
  | cons t us =>
    rw [List.head?_cons, Option.any_some, Option.all_some]
    by_cases ht : t.kind = .rightBrace
    · rw [decide_eq_true ht]
      exact .pure _ true
    · rw [decide_eq_false ht]
      exact leads_isAtEnd hends fun _ h => h

theorem leads_declarations (hends : Ends tokens body last) :
    (∀ us ss, Reads body (At body us) (fun fuel => block tokens fuel ss)
      ((readBlock last us).reading.bind fun ss' rest => .done (ss ++ ss') rest [])) ∧
    ∀ t us, Leads (At body (t :: us)) (declaration tokens)
      (.ok (readDeclaration last t us).1.stmt?) (readDeclaration last t us).1.errors
      (At body (readDeclaration last t us).1.rest) := by
  refine declarations_induction last ?_ ?_ ?_ ?_ ?_
  · intro t us ht
    exact leads_declaration hends (readDeclaration_of_ne_leftBrace last ht us)
      (reads_statement hends ht)
  · intro t us ht hblock
    refine leads_declaration hends (readDeclaration_of_leftBrace last ht us)
      (reads_statement_block hends ht ?_)
    simpa only [List.nil_append, Reading.bind_done_eq] using hblock []
  · intro ss
    refine Leads.of_succ ?_
    simp only [block]
    rw [reading_readBlock_nil]
    refine (leads_blockEnds hends []).bind_nil ?_
    exact (reads_consume hends _ _ []).map fun _ => ss
  · intro t us ht ss
    have hend := leads_blockEnds hends (t :: us)
    rw [List.head?_cons, Option.all_some, decide_eq_true ht] at hend
    have hconsume := reads_consume hends .rightBrace .expectRightBrace (t :: us)
    rw [reading_expect_of_kind last _ ht] at hconsume
    refine Leads.of_succ ?_
    simp only [block]
    rw [reading_readBlock_cons, if_pos ht, Reading.bind_done, List.append_nil]
    exact hend.bind_nil (hconsume.map fun _ => ss)
  · intro t us ht hd hblock ss
    have hend := leads_blockEnds hends (t :: us)
    rw [List.head?_cons, Option.all_some, decide_eq_false ht] at hend
    -- The loop has put the declaration behind `ss`, the reader puts it in front of the others.
    have hrest := hblock (ss ++ (readDeclaration last t us).1.stmt?.toList)
    simp only [List.append_assoc] at hrest
    refine Leads.of_succ ?_
    simp only [block]
    rw [reading_readBlock_cons, if_neg ht, Reading.bind_after, Reading.bind_done_bind_done]
    exact hend.bind_nil (Reads.after hd hrest)

/-- The walk over a program reads what its reader reads, and comes to the end mark. -/
theorem leads_program (hends : Ends tokens body last) (us : List Token) (ss : List Stmt) :
    Leads (At body us) (fun fuel => program tokens fuel ss)
      (.ok (ss ++ (readProgram last us).statements)) (readProgram last us).errors
      (At body []) := by
  induction us using program_induction last generalizing ss with
  | nil =>
    refine Leads.of_succ ?_
    simp only [program]
    rw [readProgram_nil, List.append_nil]
    exact (leads_isAtEnd hends fun _ h => h).bind_nil (.pure _ ss)
  | cons t us ih =>
    refine Leads.of_succ ?_
    simp only [program]
    rw [readProgram_cons]
    refine (leads_isAtEnd hends fun _ h => h).bind_nil ?_
    have hrest := ih (ss ++ (readDeclaration last t us).1.stmt?.toList)
    rw [List.append_assoc] at hrest
    exact ((leads_declarations hends).2 t us).bind hrest

end Walk

/-! ## The whole walk -/

theorem isPrefix_markEnd (ts : List Token) : ts <+: markEnd ts := by
  unfold markEnd
  cases hlast : ts.getLast? with
  | none =>
    rw [List.getLast?_eq_none_iff.mp hlast]
    exact List.nil_prefix
  | some t =>
    dsimp only
    split
    · exact List.prefix_rfl
    · exact List.prefix_append ts _

/-- Tokens without an end mark get one on the last line. -/
theorem markEnd_of_ne_eof {ts : List Token} (hts : ∀ t ∈ ts, t.kind ≠ .eof) :
    markEnd ts = ts ++ [Token.endAt ((ts.getLast?.map Token.line).getD 1)] := by
  unfold markEnd
  cases hlast : ts.getLast? with
  | none =>
    rw [List.getLast?_eq_none_iff.mp hlast]
    rfl
  | some t =>
    dsimp only
    rw [if_neg (hts t (List.mem_of_getLast? hlast))]
    rfl

/-- The first end mark, once there is one behind the tokens. -/
theorem ends_markEnd (ts : List Token) :
    Ends (markEnd ts) (ts.takeWhile (·.kind ≠ .eof)) (endMark ts) where
  starts := by
    unfold endMark
    cases hfind : ts.find? (·.kind = .eof) with
    | none =>
      have hts : ∀ t ∈ ts, t.kind ≠ .eof := by simpa using hfind
      rw [markEnd_of_ne_eof hts, List.takeWhile_eq_self_iff.mpr (by simpa using hts)]
      exact List.prefix_rfl
    | some t =>
      obtain ⟨ht, front, behind, rfl, hfront⟩ := List.find?_eq_some_iff_append.mp hfind
      rw [takeWhile_append_eof (by simpa using hfront) (by simpa using ht)]
      refine List.IsPrefix.trans ⟨behind, ?_⟩ (isPrefix_markEnd _)
      exact List.append_assoc front [t] behind
  kind_ne := fun t ht => by simpa using List.mem_takeWhile_imp ht
  kind_last := kind_endMark ts

/-- The cursor of a walk stays between the start and the first end mark, and makes progress. Over
any list of tokens, whether end marks are missing from it or stand anywhere in it, the walk ends
with the statements and the errors of `parse`. The cursor went through all places up to the first
end mark, one by one, and no further; the token in front of it was never asked for at the start;
and each declaration moved it forward. What follows the first end mark does not matter, and if there
is none, it is as if one stood on the last line. -/
theorem cursor_stays_and_progresses (ts : List Token) :
    let body := ts.takeWhile (·.kind ≠ .eof)
    (∃ c, (∃ n, ∀ fuel ≥ n, walk fuel ts = (.ok (parse ts).statements, c)) ∧
      c.errors = (parse ts).errors ∧
      c.visited = List.range (body.length + 1) ∧
      (∀ i ∈ c.lookedBack, 0 < i) ∧
      ∀ d ∈ c.declared, d.1 < d.2 ∧ d.2 ≤ body.length) ∧
    parse ts = parse (body ++ [endMark ts]) := by
  intro body
  have hends := ends_markEnd ts
  obtain ⟨c, hc, hat, hes⟩ := Walk.leads_program hends body [] {} (At.start body)
  have hcurrent : c.current = body.length := hat.current_add_length
  refine ⟨⟨c, hc, hes, ?_, hat.lookedBack_pos, hat.declared_lt⟩, ?_⟩
  · rw [← hcurrent]
    exact hat.visited_eq
  · exact (parse_append_eof hends.kind_ne hends.kind_last []).symm

/-- The block `{ ; }`, without an end mark. -/
def wrongBlock : List Token :=
  [.plain .leftBrace "\x7b", .plain .semicolon ";", .plain .rightBrace "\x7d"]

/-- The statement in the block is given up, which moves the cursor past the semicolon, and the block
is read to its end. -/
theorem cursor_in_wrongBlock :
    (walk 16 wrongBlock).2.visited = [0, 1, 2, 3] ∧
    (walk 16 wrongBlock).2.lookedBack = [1, 2, 2, 3] ∧
    (walk 16 wrongBlock).2.declared = [(1, 2), (0, 3)] ∧
    parse wrongBlock = parse (wrongBlock ++ [Token.endAt 1]) :=
  ⟨by decide, by decide, by decide, (cursor_stays_and_progresses wrongBlock).2⟩

end LoxLang
