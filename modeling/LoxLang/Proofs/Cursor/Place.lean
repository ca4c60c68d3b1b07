import LoxLang.Parse.Rules
import LoxLang.Proofs.Cursor.Basic

/-! # The place of the cursor

At any time the cursor of a walk marks what is left of the tokens in front of their first end mark
(`At`), or the end mark itself if nothing is left. `Leads` says what a part of a walk does from
there. The parts of which all others are made look at the next token, take it, or look back at a
token that was taken; none of them reaches behind the end mark, or in front of the first token. -/

namespace LoxLang

/-- The tokens begin with `body` and the end mark `last`, which is the first one. -/
structure Ends (tokens body : List Token) (last : Token) : Prop where
  starts : body ++ [last] <+: tokens
  kind_ne : ∀ t ∈ body, t.kind ≠ .eof
  kind_last : last.kind = .eof

/-- The cursor is in front of `us`, the last tokens of `body`. It came there step by step, it never
looked back from the start, and each declaration moved it forward. -/
structure At (body us : List Token) (c : Cursor) : Prop where
  drop_eq : body.drop c.current = us
  current_le : c.current ≤ body.length
  visited_eq : c.visited = List.range (c.current + 1)
  lookedBack_pos : ∀ i ∈ c.lookedBack, 0 < i
  declared_lt : ∀ d ∈ c.declared, d.1 < d.2 ∧ d.2 ≤ body.length

/-- The cursor is in front of `us`, and the token in front of it is `t`. -/
structure Behind (body : List Token) (t : Token) (us : List Token) (c : Cursor) : Prop
    extends At body us c where
  current_pos : 0 < c.current
  getElem?_eq : body[c.current - 1]? = some t

variable {tokens body us : List Token} {last t : Token} {c : Cursor}

namespace At

theorem start (body : List Token) : At body body {} where
  drop_eq := rfl
  current_le := Nat.zero_le _
  visited_eq := rfl
  lookedBack_pos := fun _ h => nomatch h
  declared_lt := fun _ h => nomatch h

theorem current_add_length (h : At body us c) : c.current + us.length = body.length := by
  rw [← h.drop_eq, List.length_drop]
  exact Nat.add_sub_cancel' h.current_le

theorem mem (h : At body us c) (ht : t ∈ us) : t ∈ body := by
  rw [← h.drop_eq] at ht
  exact List.mem_of_mem_drop ht

/-- The next token, or the end mark. -/
theorem getElem?_current (h : At body us c) (hends : Ends tokens body last) :
    tokens[c.current]? = some (us.headD last) := by
  obtain ⟨behind, rfl⟩ := hends.starts
  rw [List.append_assoc, ← List.head?_drop, List.drop_append_of_le_length h.current_le, h.drop_eq]
  cases us <;> rfl

/-- At the end of some tokens, the last of them is in front of the cursor. -/
theorem exists_behind (h : At body [] c) (hne : body ≠ []) : ∃ t, Behind body t [] c := by
  have hcurrent : c.current = body.length := h.current_add_length
  refine ⟨body.getLast hne, h, ?_, ?_⟩
  · rw [hcurrent]
    exact List.length_pos_iff.mpr hne
  · rw [hcurrent, ← List.getLast?_eq_getElem?, List.getLast?_eq_some_getLast hne]

end At

/-! ## Parts of a walk -/

section

variable {α β : Type}

theorem Walk.bind_apply (m : Walk α) (f : α → Walk β) (c : Cursor) :
    (m >>= f) c = match m c with
      | (.ok v, c') => f v c'
      | (.error stop, c') => (.error stop, c') := by
  change StateT.bind m (ExceptT.bindCont f) c = _
  unfold StateT.bind
  rcases m c with ⟨stop | v, c'⟩ <;> rfl

theorem Walk.tryCatch_apply (m : Walk α) (handle : Stop → Walk α) (c : Cursor) :
    (tryCatch m handle : Walk α) c = match m c with
      | (.ok v, c') => (.ok v, c')
      | (.error stop, c') => handle stop c' := by
  change ExceptT.tryCatch m handle c = _
  simp only [ExceptT.tryCatch, ExceptT.mk, bind, StateT.bind]
  rcases m c with ⟨stop | v, c'⟩ <;> rfl

end

/-- From any cursor as in `P`, this part of a walk comes to the result, finds the errors and leaves
the cursor as in `Q`, the same one whenever there is enough fuel. -/
def Leads {α : Type} (P : Cursor → Prop) (m : Nat → Walk α) (result : Except Stop α)
    (es : List ParseError) (Q : Cursor → Prop) : Prop :=
  ∀ c, P c → ∃ c', (∃ n, ∀ fuel ≥ n, m fuel c = (result, c')) ∧ Q c' ∧ c'.errors = c.errors ++ es

namespace Leads

variable {α β : Type} {P Q R : Cursor → Prop} {m : Nat → Walk α} {f : Nat → α → Walk β}
  {handle : Nat → Stop → Walk α} {v : α} {stop : Stop} {result : Except Stop α}
  {result' : Except Stop β} {es fs : List ParseError}

/-- A part that needs no fuel, and finds no error. -/
theorem const {m : Walk α}
    (h : ∀ c, P c → ∃ c', m c = (result, c') ∧ Q c' ∧ c'.errors = c.errors) :
    Leads P (fun _ => m) result [] Q := by
  intro c hc
  obtain ⟨c', hc', hQ, hes⟩ := h c hc
  exact ⟨c', ⟨0, fun _ _ => hc'⟩, hQ, by rw [hes, List.append_nil]⟩

theorem pure_of_imp (h : ∀ c, P c → Q c) (v : α) : Leads P (fun _ => pure v) (.ok v) [] Q :=
  const fun c hc => ⟨c, rfl, h c hc, rfl⟩

theorem pure (P : Cursor → Prop) (v : α) : Leads P (fun _ => pure v) (.ok v) [] P :=
  pure_of_imp (fun _ h => h) v

theorem throw (P : Cursor → Prop) (stop : Stop) :
    Leads P (fun _ => (throw stop : Walk α)) (.error stop) [] P :=
  const fun c hc => ⟨c, rfl, hc, rfl⟩

/-- The fuel for one more round. -/
theorem of_succ (h : Leads P (fun fuel => m (fuel + 1)) result es Q) : Leads P m result es Q := by
  intro c hc
  obtain ⟨c', ⟨n, hn⟩, hQ, hes⟩ := h c hc
  refine ⟨c', ⟨n + 1, fun fuel hfuel => ?_⟩, hQ, hes⟩
  obtain ⟨fuel, rfl⟩ := Nat.exists_eq_add_of_le' hfuel
  exact hn (fuel + n) (Nat.le_add_left n fuel)

theorem mono {P' Q' : Cursor → Prop} (h : Leads P m result es Q) (hP : ∀ c, P' c → P c)
    (hQ : ∀ c, Q c → Q' c) : Leads P' m result es Q' := by
  intro c hc
  obtain ⟨c', hc', hQc', hes⟩ := h c (hP c hc)
  exact ⟨c', hc', hQ c' hQc', hes⟩

/-- A part that goes on from where another came to. -/
theorem andThen {next whole : Nat → Walk β} (hm : Leads P m result es Q)
    (hnext : Leads Q next result' fs R)
    (hwhole : ∀ fuel c c', m fuel c = (result, c') → whole fuel c = next fuel c') :
    Leads P whole result' (es ++ fs) R := by
  intro c hc
  obtain ⟨c₁, ⟨n₁, hc₁⟩, hQ, hes⟩ := hm c hc
  obtain ⟨c₂, ⟨n₂, hc₂⟩, hR, hfs⟩ := hnext c₁ hQ
  -- fuel that is enough for both
  refine ⟨c₂, ⟨max n₁ n₂, fun fuel hfuel => ?_⟩, hR, ?_⟩
  · obtain ⟨hfuel₁, hfuel₂⟩ := Nat.max_le.mp hfuel
    rw [hwhole fuel c c₁ (hc₁ fuel hfuel₁), hc₂ fuel hfuel₂]
  · rw [hfs, hes, List.append_assoc]

theorem bind (hm : Leads P m (.ok v) es Q) (hf : Leads Q (fun fuel => f fuel v) result' fs R) :
    Leads P (fun fuel => m fuel >>= f fuel) result' (es ++ fs) R := by
  refine hm.andThen hf fun fuel c c' h => ?_
  rw [Walk.bind_apply, h]

/-- A part that finds no error. -/
theorem bind_nil (hm : Leads P m (.ok v) [] Q)
    (hf : Leads Q (fun fuel => f fuel v) result' es R) :
    Leads P (fun fuel => m fuel >>= f fuel) result' es R :=
  hm.bind hf

/-- A part that finds no error behind one that does. -/
theorem bind_of_nil (hm : Leads P m (.ok v) es Q)
    (hf : Leads Q (fun fuel => f fuel v) result' [] R) :
    Leads P (fun fuel => m fuel >>= f fuel) result' es R := by
  rw [← List.append_nil es]
  exact hm.bind hf

theorem bind_get {f : Nat → Cursor → Walk α}
    (hf : ∀ c, P c → Leads P (fun fuel => f fuel c) result es Q) :
    Leads P (fun fuel => get >>= f fuel) result es Q :=
  fun c hc => hf c hc c hc

theorem bind_error (hm : Leads P m (.error stop) es Q) :
    Leads P (fun fuel => m fuel >>= f fuel) (.error stop) es Q := by
  rw [← List.append_nil es]
  refine hm.andThen (.throw Q stop) fun fuel c c' h => ?_
  rw [Walk.bind_apply, h]
  rfl

theorem tryCatch (hm : Leads P m (.ok v) es Q) :
    Leads P (fun fuel => tryCatch (m fuel) (handle fuel)) (.ok v) es Q := by
  rw [← List.append_nil es]
  refine hm.andThen (.pure Q v) fun fuel c c' h => ?_
  rw [Walk.tryCatch_apply, h]
  rfl

/-- What is raised is handled without another error. -/
theorem tryCatch_error (hm : Leads P m (.error stop) es Q)
    (hhandle : Leads Q (fun fuel => handle fuel stop) result [] R) :
    Leads P (fun fuel => MonadExcept.tryCatch (m fuel) (handle fuel)) result es R := by
  rw [← List.append_nil es]
  refine hm.andThen hhandle fun fuel c c' h => ?_
  rw [Walk.tryCatch_apply, h]

end Leads

theorem Behind.at (c : Cursor) (h : Behind body t us c) : At body us c := h.toAt

namespace Walk

variable {P : Cursor → Prop} {accepts : Kind → Bool}

theorem tokenAt_of_getElem? {i : Nat} (h : tokens[i]? = some t) :
    tokenAt tokens i c = (.ok t, c) := by
  rw [tokenAt, if_pos (Int.natCast_nonneg i), Int.toNat_natCast, h]
  rfl

/-- Looking at the next token changes nothing, whatever is known of the cursor. -/
theorem leads_peek (hends : Ends tokens body last) (hP : ∀ c, P c → At body us c) :
    Leads P (fun _ => peek tokens) (.ok (us.headD last)) [] P :=
  .const fun c hc => ⟨c, tokenAt_of_getElem? ((hP c hc).getElem?_current hends), hc, rfl⟩

theorem leads_isAtEnd (hends : Ends tokens body last) (hP : ∀ c, P c → At body us c) :
    Leads P (fun _ => isAtEnd tokens) (.ok us.isEmpty) [] P := by
  intro c hc
  have hkind : decide ((us.headD last).kind = .eof) = us.isEmpty := by
    cases us with
    | nil => exact decide_eq_true hends.kind_last
    | cons t us =>
      have ht : t ∈ body := (hP c hc).mem (List.mem_cons_self ..)
      exact decide_eq_false (hends.kind_ne t ht)
  have hpeek :
      Leads P (fun _ => isAtEnd tokens) (.ok (decide ((us.headD last).kind = .eof))) [] P :=
    (leads_peek hends hP).bind_nil (.pure P _)
  rw [← hkind]
  exact hpeek c hc

/-- No kind is accepted at the end mark. -/
theorem leads_check (hends : Ends tokens body last) :
    Leads (At body us) (fun _ => check tokens accepts) (.ok (us.head?.any (accepts ·.kind))) []
      (At body us) := by
  refine (leads_isAtEnd hends fun _ h => h).bind_nil ?_
  cases us with
  | nil => exact .pure _ _
  | cons t us => exact (leads_peek hends fun _ h => h).bind_nil (.pure _ _)

/-- Looking back at a token that was taken. -/
theorem leads_previous (hends : Ends tokens body last) :
    Leads (Behind body t us) (fun _ => previous tokens) (.ok t) [] (Behind body t us) := by
  refine .const fun c hc => ?_
  have ht : tokens[c.current - 1]? = some t := by
    obtain ⟨behind, rfl⟩ := hends.starts
    have hlt : c.current - 1 < body.length := (List.getElem?_eq_some_iff.mp hc.getElem?_eq).1
    rw [List.append_assoc, List.getElem?_append_left hlt, hc.getElem?_eq]
  refine ⟨{ c with lookedBack := c.lookedBack ++ [c.current] }, ?_, ?_, rfl⟩
  · have hindex : (c.current : Int) - 1 = (c.current - 1 : Nat) := by
      have hpos := hc.current_pos
      omega
    change tokenAt tokens ((c.current : Int) - 1) _ = _
    rw [hindex, tokenAt_of_getElem? ht]
  · refine { hc with lookedBack_pos := fun i hi => ?_ }
    rcases List.mem_append.mp hi with hi | hi
    · exact hc.lookedBack_pos i hi
    · rw [List.mem_singleton.mp hi]
      exact hc.current_pos

/-- A step takes the next token. -/
theorem leads_step : Leads (At body (t :: us)) (fun _ => step) (.ok ()) [] (Behind body t us) := by
  refine .const fun c hc => ?_
  have hcurrent : c.current + 1 ≤ body.length := by
    have hlength := hc.current_add_length
    rw [List.length_cons] at hlength
    omega
  have ht : body[c.current]? = some t := by
    rw [← List.head?_drop, hc.drop_eq]
    rfl
  have hdrop : body.drop (c.current + 1) = us := by
    rw [← List.tail_drop, hc.drop_eq, List.tail_cons]
  have hvisited : c.visited ++ [c.current + 1] = List.range (c.current + 1 + 1) := by
    rw [hc.visited_eq, ← List.range_succ]
  refine ⟨{ c with current := c.current + 1, visited := c.visited ++ [c.current + 1] },
    rfl, ?_, rfl⟩
  exact { hc with
    drop_eq := hdrop, current_le := hcurrent, visited_eq := hvisited
    current_pos := Nat.succ_pos _, getElem?_eq := ht }

theorem leads_advance (hends : Ends tokens body last) :
    Leads (At body (t :: us)) (fun _ => advance tokens) (.ok t) [] (Behind body t us) :=
  (leads_isAtEnd hends fun _ h => h).bind_nil (leads_step.bind_nil (leads_previous hends))

/-- At the end mark the cursor stays where it is. -/
theorem leads_advance_nil (hends : Ends tokens body last) :
    Leads (Behind body t []) (fun _ => advance tokens) (.ok t) [] (Behind body t []) :=
  (leads_isAtEnd hends Behind.at).bind_nil (leads_previous hends)

theorem leads_accept (hends : Ends tokens body last) (ht : accepts t.kind = true) :
    Leads (At body (t :: us)) (fun _ => accept tokens accepts) (.ok true) []
      (Behind body t us) := by
  refine (leads_check hends).bind_nil ?_
  rw [List.head?_cons, Option.any_some, if_pos ht]
  exact (leads_advance hends).bind_nil (.pure _ _)

theorem leads_accept_of_not (hends : Ends tokens body last)
    (hus : us.head?.any (accepts ·.kind) = false) :
    Leads (At body us) (fun _ => accept tokens accepts) (.ok false) [] (At body us) := by
  refine (leads_check hends).bind_nil ?_
  rw [hus]
  exact .pure _ _

/-- A declaration that moved the cursor forward is recorded. -/
theorem leads_noteDeclaration {start : Nat} (hstart : start + us.length < body.length) :
    Leads (At body us) (fun _ => noteDeclaration start) (.ok ()) [] (At body us) := by
  refine .const fun c hc => ?_
  have hforward : start < c.current := by
    have hlength := hc.current_add_length
    omega
  refine ⟨{ c with declared := c.declared ++ [(start, c.current)] }, rfl, ?_, rfl⟩
  refine { hc with declared_lt := fun d hd => ?_ }
  rcases List.mem_append.mp hd with hd | hd
  · exact hc.declared_lt d hd
  · rw [List.mem_singleton.mp hd]
    exact ⟨hforward, hc.current_le⟩

theorem leads_report (e : ParseError) :
    Leads (At body us) (fun _ => report e) (.ok ()) [e] (At body us) :=
  fun c hc => ⟨{ c with errors := c.errors ++ [e] }, ⟨0, fun _ _ => rfl⟩, { hc with }, rfl⟩

/-- An error is raised at the next token, or at the end mark. -/
theorem leads_fail {α : Type} (hends : Ends tokens body last) (cause : ParseCause) :
    Leads (At body us) (fun _ => (fail tokens cause : Walk α)) (.error .syntaxError)
      [⟨cause, us.headD last⟩] (At body us) := by
  refine (leads_peek hends fun _ h => h).bind_nil ?_
  exact (leads_report _).bind (.throw _ _)

end Walk
end LoxLang
