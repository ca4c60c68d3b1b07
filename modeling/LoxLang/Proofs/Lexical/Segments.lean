import LoxLang.Proofs.Lexical.Grammar

/-! # The segments of a text are the ones prescribed

`Segment.next` gives the segment that the lexical grammar prescribes (`Segment.prescribes_next`),
and the grammar prescribes no other (`Prescribes.next_eq`). So a text is cut into exactly the
segments that are computed (`cut_iff`). -/

namespace LoxLang

/-! ## Comments and strings -/

namespace Segment

theorem not_closes_cons {c : Char} {cs : List Char} (hclose : ¬(c = '*' ∧ cs.head? = some '/'))
    (h : ¬['*', '/'] <:+: cs) : ¬['*', '/'] <:+: c :: cs := by
  intro hmid
  rcases List.infix_cons_iff.mp hmid with hpre | hmid
  · obtain ⟨rfl, ⟨rest, hrest⟩⟩ := List.cons_prefix_cons.mp hpre
    exact hclose ⟨rfl, by rw [← hrest]; rfl⟩
  · exact h hmid

/-- Splitting behind the first closing mark. -/
theorem splitComment?_eq_some {cs full rest : List Char}
    (h : splitComment? cs = some (full, rest)) :
    ∃ body, full = body ++ ['*', '/'] ∧ ¬['*', '/'] <:+: body ++ ['*'] := by
  fun_induction splitComment? cs generalizing full with
  | case1 =>
    cases h
    exact ⟨[], rfl, by decide⟩
  | case2 c cs hclose ih =>
    obtain ⟨⟨full', rest'⟩, hs, he⟩ := Option.map_eq_some_iff.mp h
    cases he
    obtain ⟨body, rfl, hbody⟩ := ih hs
    refine ⟨c :: body, rfl, not_closes_cons ?_ hbody⟩
    rintro ⟨rfl, hhead⟩
    have happend := splitComment?_append hs
    cases body with
    | nil => cases hhead
    | cons d body =>
      cases hhead
      exact hclose _ rfl happend.symm
  | case3 => cases h

theorem splitComment?_eq_none {cs : List Char} (h : splitComment? cs = none) :
    ¬['*', '/'] <:+: cs := by
  fun_induction splitComment? cs with
  | case1 => cases h
  | case2 c cs hclose ih =>
    refine not_closes_cons ?_ (ih (Option.map_eq_none_iff.mp h))
    rintro ⟨rfl, hhead⟩
    obtain ⟨rest, rfl⟩ := List.head?_eq_some_iff.mp hhead
    exact hclose rest rfl rfl
  | case3 => decide

theorem splitComment?_of_not_closes {body : List Char} (rest : List Char)
    (h : ¬['*', '/'] <:+: body ++ ['*']) :
    splitComment? (body ++ '*' :: '/' :: rest) = some (body ++ ['*', '/'], rest) := by
  induction body with
  | nil => rfl
  | cons c body ih =>
    have hclose : ∀ more, c = '*' → body ++ '*' :: '/' :: rest = '/' :: more → False := by
      rintro more rfl hmore
      cases body with
      | nil => cases hmore
      | cons d body =>
        cases hmore
        exact h ⟨[], body ++ ['*'], by simp⟩
    have hbody := ih fun hmid => h (hmid.trans (List.infix_cons List.infix_rfl))
    rw [List.cons_append, splitComment?.eq_2 _ _ hclose, hbody]
    rfl

theorem splitComment?_of_not_closes_end {body : List Char} (h : ¬['*', '/'] <:+: body) :
    splitComment? body = none := by
  cases hs : splitComment? body with
  | none => rfl
  | some split =>
    obtain ⟨full, rest⟩ := split
    obtain ⟨inner, rfl, -⟩ := splitComment?_eq_some hs
    exact absurd ⟨inner, rest, splitComment?_append hs⟩ h

/-- What is taken while it differs from the mark, and where that ends. -/
theorem takeWhile_bne (mark : Char) (cs : List Char) :
    mark ∉ cs.takeWhile (· != mark) ∧
      (cs.dropWhile (· != mark) = [] ∨ (cs.dropWhile (· != mark)).head? = some mark) := by
  induction cs with
  | nil => exact ⟨List.not_mem_nil, .inl rfl⟩
  | cons c cs ih =>
    by_cases h : c = mark
    · subst h
      simp
    · have hne : (c != mark) = true := by simpa using h
      simp only [List.takeWhile_cons, List.dropWhile_cons, hne, if_true]
      exact ⟨fun hmem => (List.mem_cons.mp hmem).elim (fun he => h he.symm) ih.1, ih.2⟩

/-- A part without the mark, up to the mark or the end. -/
theorem takeWhile_bne_append {mark : Char} {body rest : List Char} (hbody : mark ∉ body)
    (hrest : rest = [] ∨ rest.head? = some mark) :
    (body ++ rest).takeWhile (· != mark) = body ∧ (body ++ rest).dropWhile (· != mark) = rest := by
  have hall : ∀ c ∈ body, (c != mark) = true := by
    intro c hc
    rw [bne_iff_ne]
    rintro rfl
    exact hbody hc
  rw [List.takeWhile_append_of_pos hall, List.dropWhile_append_of_pos hall]
  rcases hrest with rfl | hrest
  · exact ⟨List.append_nil _, rfl⟩
  · obtain ⟨more, rfl⟩ := List.head?_eq_some_iff.mp hrest
    simp

theorem prescribes_afterSlash (cs : List Char) :
    Prescribes ('/' :: cs) (afterSlash cs).1 (afterSlash cs).2 := by
  unfold afterSlash
  split
  · next rest =>
    obtain ⟨hbody, hrest⟩ := takeWhile_bne '\n' rest
    have h := Prescribes.lineComment hbody hrest
    rwa [List.takeWhile_append_dropWhile] at h
  · next rest =>
    split
    · next full after hs =>
      obtain ⟨body, rfl, hbody⟩ := splitComment?_eq_some hs
      have happend := splitComment?_append hs
      rw [List.append_assoc] at happend
      rw [← happend]
      exact .blockComment hbody
    · next hs => exact .openComment (splitComment?_eq_none hs)
  · next hline hblock =>
    have hlongest : Longest ['/'] ('/' :: cs) := longest_cons fun kind ds hview _ => by
      obtain rfl := hview.eq_nil_of_slash
      exact Nat.le_refl _
    refine .lexeme LexemeView.slash.lexeme ?_ ?_ hlongest
    · rintro ⟨more, hmore⟩
      cases hmore
      exact hline _ rfl
    · rintro ⟨more, hmore⟩
      cases hmore
      exact hblock _ rfl

theorem prescribes_afterQuote (cs : List Char) :
    Prescribes ('"' :: cs) (afterQuote cs).1 (afterQuote cs).2 := by
  obtain ⟨hbody, hrest⟩ := takeWhile_bne '"' cs
  have happend := List.takeWhile_append_dropWhile (p := (· != '"')) (l := cs)
  unfold afterQuote
  dsimp only
  split
  · next hdrop =>
    rw [hdrop, List.append_nil] at happend
    rw [happend] at hbody ⊢
    exact .openString hbody
  · next close rest hdrop =>
    rw [hdrop] at happend hrest
    rcases hrest with hnil | hhead
    · cases hnil
    · cases hhead
      have h : Prescribes ('"' :: (_ ++ '"' :: rest)) _ _ := .string hbody
      rwa [happend] at h

/-! ## Numbers, words and operators -/

theorem length_le_takeWhile {p : Char → Bool} {ds cs : List Char} (hall : ∀ d ∈ ds, p d = true)
    (h : ds <+: cs) : ds.length ≤ (cs.takeWhile p).length := by
  obtain ⟨rest, rfl⟩ := h
  rw [List.takeWhile_append_of_pos hall, List.length_append]
  exact Nat.le_add_right _ _

theorem cls_afterDigit (c : Char) (cs : List Char) :
    (afterDigit c cs).1 = ⟨.token .number, (afterDigit c cs).1.text⟩ := by
  unfold afterDigit
  dsimp only
  split
  · split <;> rfl
  · rfl

theorem isNumber_afterDigit {c : Char} (hc : c.isDigit = true) (cs : List Char) :
    IsNumber (afterDigit c cs).1.text := by
  have hwhole : ∀ d ∈ c :: cs.takeWhile Char.isDigit, d.isDigit = true := by
    intro d hd
    rcases List.mem_cons.mp hd with rfl | hd
    · exact hc
    · exact List.all_eq_true.mp List.all_takeWhile d hd
  unfold afterDigit
  dsimp only
  split
  · next d rest _ =>
    split
    · next hd =>
      refine .decimal (List.cons_ne_nil _ _) hwhole (List.cons_ne_nil _ _) fun f hf => ?_
      rcases List.mem_cons.mp hf with rfl | hf
      · exact hd
      · exact List.all_eq_true.mp List.all_takeWhile f hf
    · exact .whole (List.cons_ne_nil _ _) hwhole
  · exact .whole (List.cons_ne_nil _ _) hwhole

theorem length_whole_le_afterDigit (c : Char) (cs : List Char) :
    (cs.takeWhile Char.isDigit).length + 1 ≤ (afterDigit c cs).1.text.length := by
  unfold afterDigit
  dsimp only
  split
  · split
    · simp only [List.length_append, List.length_cons]
      omega
    · exact Nat.le_refl _
  · exact Nat.le_refl _

/-- A point with a digit behind it belongs to the number. -/
theorem afterDigit_decimal (c : Char) {f : Char} {ds fs : List Char} (rest : List Char)
    (hds : ∀ d ∈ ds, d.isDigit = true) (hf : f.isDigit = true) (hfs : ∀ d ∈ fs, d.isDigit = true) :
    (afterDigit c (ds ++ '.' :: f :: (fs ++ rest))).1.text =
      c :: (ds ++ '.' :: f :: (fs ++ rest.takeWhile Char.isDigit)) := by
  have htake : (ds ++ '.' :: f :: (fs ++ rest)).takeWhile Char.isDigit = ds := by
    rw [List.takeWhile_append_of_pos hds]
    simp
  have hdrop : (ds ++ '.' :: f :: (fs ++ rest)).dropWhile Char.isDigit =
      '.' :: f :: (fs ++ rest) := by
    rw [List.dropWhile_append_of_pos hds]
    simp
  unfold afterDigit
  simp only [htake, hdrop, hf, if_true, List.takeWhile_append_of_pos hfs, List.cons_append]

theorem longest_afterDigit {c : Char} (hc : c.isDigit = true) (cs : List Char) :
    Longest (afterDigit c cs).1.text (c :: cs) := by
  have hlength := length_whole_le_afterDigit c cs
  obtain ⟨text, htext⟩ : ∃ text, (afterDigit c cs).1.text = c :: text := by
    have happend := afterDigit_append c cs
    cases h : (afterDigit c cs).1.text with
    | nil => rw [h] at hlength; exact absurd hlength (Nat.not_succ_le_zero _)
    | cons d text =>
      rw [h] at happend
      obtain ⟨rfl, -⟩ := List.cons.inj happend
      exact ⟨text, rfl⟩
  rw [htext] at hlength ⊢
  refine longest_cons fun kind ds hview hds => ?_
  rcases hview.isNumber_of_isDigit hc with rfl | hnumber
  · exact Nat.zero_le _
  generalize hnum : c :: ds = number at hnumber
  cases hnumber with
  | whole _ hall =>
    subst hnum
    have hle := length_le_takeWhile (fun d hd => hall d (List.mem_cons_of_mem c hd)) hds
    simp only [List.length_cons] at hlength
    omega
  | @decimal ws fs hws hall hfs hfall =>
    obtain ⟨rest, rfl⟩ := hds
    cases ws with
    | nil => exact absurd rfl hws
    | cons w ws =>
      cases fs with
      | nil => exact absurd rfl hfs
      | cons f fs =>
        rw [List.cons_append] at hnum
        obtain ⟨rfl, rfl⟩ := List.cons.inj hnum
        have hdecimal := afterDigit_decimal c rest
          (fun d hd => hall d (List.mem_cons_of_mem c hd)) (hfall f (List.mem_cons_self ..))
          (fun d hd => hfall d (List.mem_cons_of_mem f hd))
        rw [List.append_assoc, List.cons_append, List.cons_append, hdecimal] at htext
        obtain ⟨-, rfl⟩ := List.cons.inj htext
        simp only [List.length_append, List.length_cons]
        omega

theorem not_comment_of_ne {c d : Char} {cs : List Char} (h : c ≠ '/') : ¬['/', d] <+: c :: cs := by
  intro hpre
  exact h (List.cons_prefix_cons.mp hpre).1.symm

theorem prescribes_lexeme {c : Char} {cs text rest : List Char} {kind : Kind} (hc : c ≠ '/')
    (hview : LexemeView kind text) (happend : text ++ rest = c :: cs)
    (hlongest : Longest text (c :: cs)) : Prescribes (c :: cs) ⟨.token kind, text⟩ rest := by
  rw [← happend] at hlongest ⊢
  refine .lexeme hview.lexeme ?_ ?_ hlongest
  · rw [happend]
    exact not_comment_of_ne hc
  · rw [happend]
    exact not_comment_of_ne hc

theorem prescribes_afterDigit {c : Char} (hc : c.isDigit = true) (cs : List Char) :
    Prescribes (c :: cs) (afterDigit c cs).1 (afterDigit c cs).2 := by
  rw [cls_afterDigit]
  have hslash : c ≠ '/' := by
    rintro rfl
    cases hc
  exact prescribes_lexeme hslash (isNumber_afterDigit hc cs).view (afterDigit_append c cs)
    (longest_afterDigit hc cs)

theorem cls_afterWordStart (c : Char) (cs : List Char) :
    (afterWordStart c cs).1 =
      ⟨.token (Kind.ofWord (String.ofList (afterWordStart c cs).1.text)),
        (afterWordStart c cs).1.text⟩ :=
  rfl

theorem view_afterWordStart {c : Char} (hc : isWordStart c = true) (cs : List Char) :
    LexemeView (Kind.ofWord (String.ofList (afterWordStart c cs).1.text))
      (afterWordStart c cs).1.text :=
  .word hc fun d hd => List.all_eq_true.mp List.all_takeWhile d hd

theorem longest_afterWordStart {c : Char} (hc : isWordStart c = true) (cs : List Char) :
    Longest (afterWordStart c cs).1.text (c :: cs) :=
  longest_cons fun _ _ hview hds => length_le_takeWhile (hview.isWordPart_of_isWordStart hc) hds

theorem prescribes_afterWordStart {c : Char} (hc : isWordStart c = true) (cs : List Char) :
    Prescribes (c :: cs) (afterWordStart c cs).1 (afterWordStart c cs).2 := by
  have hslash : c ≠ '/' := by
    rintro rfl
    cases hc
  exact prescribes_lexeme hslash (view_afterWordStart hc cs) (afterWordStart_append c cs)
    (longest_afterWordStart hc cs)

theorem prescribes_single {c : Char} {kind : Kind} (h : single? c = some kind) (cs : List Char) :
    Prescribes (c :: cs) ⟨.token kind, [c]⟩ cs := by
  refine prescribes_lexeme (of_single? h).2.1 (.single h) rfl
    (longest_cons fun kind ds hview _ => ?_)
  obtain rfl := hview.eq_nil_of_single? h
  exact Nat.le_refl _

theorem prescribes_long {c : Char} {long short : Kind} (h : extensible? c = some (long, short))
    (cs : List Char) : Prescribes (c :: '=' :: cs) ⟨.token long, [c, '=']⟩ cs := by
  refine prescribes_lexeme (of_extensible? h).2.1 (.long h) rfl
    (longest_cons fun kind ds hview _ => ?_)
  rcases hview.of_extensible? h with rfl | rfl
  · exact Nat.zero_le _
  · exact Nat.le_refl _

theorem prescribes_short {c : Char} {long short : Kind} (h : extensible? c = some (long, short))
    {cs : List Char} (hcs : ∀ rest, cs ≠ '=' :: rest) :
    Prescribes (c :: cs) ⟨.token short, [c]⟩ cs := by
  refine prescribes_lexeme (of_extensible? h).2.1 (.short h) rfl
    (longest_cons fun kind ds hview hds => ?_)
  rcases hview.of_extensible? h with rfl | rfl
  · exact Nat.le_refl _
  · obtain ⟨rest, hrest⟩ := hds
    exact absurd hrest.symm (hcs rest)

theorem not_lexeme_of_unexpected {c : Char} (hsingle : single? c = none)
    (hext : extensible? c = none) (hslash : c ≠ '/') (hdigit : c.isDigit = false)
    (hword : isWordStart c = false) {kind : Kind} {text cs : List Char} (h : Lexeme kind text) :
    ¬text <+: c :: cs := by
  intro hpre
  cases h.view with
  | single h | short h | long h =>
    obtain ⟨rfl, -⟩ := List.cons_prefix_cons.mp hpre
    simp_all
  | slash => exact hslash (List.cons_prefix_cons.mp hpre).1.symm
  | number h | word h =>
    obtain ⟨rfl, -⟩ := List.cons_prefix_cons.mp hpre
    simp_all

/-- The first segment that is computed is the one prescribed. -/
theorem prescribes_next (c : Char) (cs : List Char) :
    Prescribes (c :: cs) (next c cs).1 (next c cs).2 := by
  unfold next
  split
  · next hsingle => exact prescribes_single hsingle cs
  · next hext =>
    split
    · exact prescribes_long hext _
    · next hcs => exact prescribes_short hext hcs
  · next hsingle hext =>
    split
    · next h => rw [h]; exact prescribes_afterSlash cs
    split
    · next h =>
      refine .blank ?_
      simpa [isSpace, or_assoc] using h
    split
    · next h => rw [h]; exact .newline
    split
    · next h => rw [h]; exact prescribes_afterQuote cs
    split
    · next h => exact prescribes_afterDigit h cs
    split
    · next h => exact prescribes_afterWordStart h cs
    · next hslash hspace hnewline hquote hdigit hword =>
      refine .unexpected ?_ fun kind text h => ?_
      · simp_all [isSpace]
      · exact not_lexeme_of_unexpected hsingle hext hslash (by simpa using hdigit)
          (by simpa using hword) h

/-! ## No other segment is prescribed -/

theorem next_slash (cs : List Char) : next '/' cs = afterSlash cs := by
  unfold next
  rfl

theorem next_quote (cs : List Char) : next '"' cs = afterQuote cs := by
  unfold next
  rfl

theorem next_of_not_mark {c : Char} (hsingle : single? c = none) (hext : extensible? c = none)
    (hc : c ∉ ['/', ' ', '\r', '\t', '\n', '"']) (cs : List Char) :
    next c cs = if c.isDigit then afterDigit c cs else if isWordStart c then afterWordStart c cs
      else (⟨.unexpected, [c]⟩, cs) := by
  simp only [List.mem_cons, List.not_mem_nil, or_false, not_or] at hc
  obtain ⟨hslash, hspace, hreturn, htab, hnewline, hquote⟩ := hc
  have hblank : isSpace c = false := by simp [isSpace, hspace, hreturn, htab]
  simp only [next, hsingle, hext, hslash, hblank, hnewline, hquote, if_false, Bool.false_eq_true]

theorem next_of_isDigit_or_isWordStart {c : Char} (h : c.isDigit = true ∨ isWordStart c = true)
    (cs : List Char) :
    next c cs = if c.isDigit then afterDigit c cs else afterWordStart c cs := by
  have hsingle : single? c = none := by
    rw [Option.eq_none_iff_forall_ne_some]
    intro kind hs
    obtain ⟨-, -, hdigit, hword⟩ := of_single? hs
    simp [hdigit, hword] at h
  have hext : extensible? c = none := by
    rw [Option.eq_none_iff_forall_ne_some]
    intro kinds hs
    obtain ⟨-, -, hdigit, hword⟩ := of_extensible? hs
    simp [hdigit, hword] at h
  have hc : c ∉ ['/', ' ', '\r', '\t', '\n', '"'] := by
    intro hc
    simp only [List.mem_cons, List.not_mem_nil, or_false] at hc
    rcases hc with rfl | rfl | rfl | rfl | rfl | rfl <;> revert h <;> decide
  rw [next_of_not_mark hsingle hext hc]
  split
  · rfl
  · next hdigit => rw [if_pos (h.resolve_left hdigit)]

end Segment

theorem Longest.unique {input text text' rest rest' : List Char} {kind kind' : Kind}
    (h : Longest text input) (hlexeme : Lexeme kind text) (happ : text ++ rest = input)
    (h' : Longest text' input) (hlexeme' : Lexeme kind' text') (happ' : text' ++ rest' = input) :
    text' = text ∧ rest' = rest := by
  have hle := h kind' text' hlexeme' ⟨rest', happ'⟩
  have hge := h' kind text hlexeme ⟨rest, happ⟩
  exact List.append_inj (happ'.trans happ.symm) (Nat.le_antisymm hle hge)

/-- The segment that is prescribed is the one that is computed. -/
theorem Prescribes.next_eq {input rest : List Char} {s : Segment} (h : Prescribes input s rest) :
    ∃ c cs, input = c :: cs ∧ Segment.next c cs = (s, rest) := by
  cases h with
  | @lineComment body rest hbody hrest =>
    refine ⟨'/', _, rfl, ?_⟩
    obtain ⟨htake, hdrop⟩ := Segment.takeWhile_bne_append hbody hrest
    rw [Segment.next_slash, Segment.afterSlash, htake, hdrop]
  | @blockComment body rest hbody =>
    refine ⟨'/', _, rfl, ?_⟩
    rw [Segment.next_slash, Segment.afterSlash, Segment.splitComment?_of_not_closes rest hbody]
  | @openComment body hbody =>
    refine ⟨'/', _, rfl, ?_⟩
    rw [Segment.next_slash, Segment.afterSlash, Segment.splitComment?_of_not_closes_end hbody]
  | @string body rest hbody =>
    refine ⟨'"', _, rfl, ?_⟩
    obtain ⟨htake, hdrop⟩ := Segment.takeWhile_bne_append hbody (.inr (List.head?_cons))
    rw [Segment.next_quote, Segment.afterQuote, htake, hdrop]
    rfl
  | @openString body hbody =>
    refine ⟨'"', _, rfl, ?_⟩
    obtain ⟨htake, hdrop⟩ := Segment.takeWhile_bne_append hbody (.inl rfl)
    rw [List.append_nil] at htake hdrop
    rw [Segment.next_quote, Segment.afterQuote, htake, hdrop]
  | blank hc =>
    simp only [List.mem_cons, List.not_mem_nil, or_false] at hc
    rcases hc with rfl | rfl | rfl <;> exact ⟨_, _, rfl, rfl⟩
  | newline => exact ⟨_, _, rfl, rfl⟩
  | @lexeme kind text rest hlexeme hline hblock hlongest =>
    cases hlexeme.view with
    | @single c _ h =>
      refine ⟨c, rest, rfl, ?_⟩
      rw [Segment.next, h]
    | @short c long short h =>
      refine ⟨c, rest, rfl, ?_⟩
      rw [Segment.next, (Segment.of_extensible? h).1, h]
      dsimp only
      split
      · next rest =>
        have hlong := hlongest long [c, '='] (LexemeView.long h).lexeme ⟨rest, rfl⟩
        exact absurd hlong (Nat.not_succ_le_self 1)
      · rfl
    | @long c _ _ h =>
      refine ⟨c, '=' :: rest, rfl, ?_⟩
      rw [Segment.next, (Segment.of_extensible? h).1, h]
      rfl
    | slash =>
      refine ⟨'/', rest, rfl, ?_⟩
      rw [Segment.next_slash]
      unfold Segment.afterSlash
      split
      · next rest => exact absurd ⟨rest, rfl⟩ hline
      · next rest => exact absurd ⟨rest, rfl⟩ hblock
      · rfl
    | @number c cs hc =>
      refine ⟨c, cs ++ rest, rfl, ?_⟩
      rw [Segment.next_of_isDigit_or_isWordStart (.inl hc), if_pos hc]
      obtain ⟨htext, hrest⟩ := hlongest.unique hlexeme rfl
        (Segment.longest_afterDigit hc (cs ++ rest))
        (Segment.isNumber_afterDigit hc (cs ++ rest)).view.lexeme
        (Segment.afterDigit_append c (cs ++ rest))
      refine Prod.ext ?_ hrest
      rw [Segment.cls_afterDigit, htext]
    | @word c cs hc =>
      refine ⟨c, cs ++ rest, rfl, ?_⟩
      have hdigit : ¬c.isDigit = true := fun hdigit => by
        rw [Segment.isWordStart_of_isDigit hdigit] at hc
        cases hc
      rw [Segment.next_of_isDigit_or_isWordStart (.inr hc), if_neg hdigit]
      obtain ⟨htext, hrest⟩ := hlongest.unique hlexeme rfl
        (Segment.longest_afterWordStart hc (cs ++ rest))
        (Segment.view_afterWordStart hc (cs ++ rest)).lexeme
        (Segment.afterWordStart_append c (cs ++ rest))
      refine Prod.ext ?_ hrest
      rw [Segment.cls_afterWordStart, htext]
  | @unexpected c rest hc hnone =>
    refine ⟨c, rest, rfl, ?_⟩
    have hview {kind : Kind} {text : List Char} (h : LexemeView kind (c :: text))
        (htext : text <+: rest) : False :=
      hnone kind _ h.lexeme (List.cons_prefix_cons.mpr ⟨rfl, htext⟩)
    have hsingle : Segment.single? c = none := by
      rw [Option.eq_none_iff_forall_ne_some]
      exact fun kind hs => hview (.single hs) List.nil_prefix
    have hext : Segment.extensible? c = none := by
      rw [Option.eq_none_iff_forall_ne_some]
      exact fun kinds hs => hview (.short hs) List.nil_prefix
    have hslash : c ≠ '/' := by
      rintro rfl
      exact hview .slash List.nil_prefix
    have hdigit : ¬c.isDigit = true := fun hdigit =>
      hview (.number hdigit (.whole (List.cons_ne_nil _ _) (by simpa using hdigit))) List.nil_prefix
    have hword : ¬Segment.isWordStart c = true := fun hword =>
      hview (.word hword (by simp)) List.nil_prefix
    rw [Segment.next_of_not_mark hsingle hext (by simpa [hslash] using hc), if_neg hdigit,
      if_neg hword]

end LoxLang
