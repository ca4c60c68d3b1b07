import LoxLang.Proofs.Lexical.Join
import Mathlib

/-! # Scanning the first lines of a text

A text may be cut at any of its line ends, also inside a string or a block comment. The segments of
the first lines alone are those that begin the whole text, except that a string or comment may stay
open at their end; in the whole text it then takes the line end in (`Cut.exists_append_line`). So
the tokens of the first lines are the first tokens of the whole text, on the same lines, and the
next token of the whole text is a string or stands further down (`scan_first_lines`). Scanning two
texts, the second on a new line, is scanning each of them, unless the first stays open
(`scan_lines_homomorphism`). -/

namespace LoxLang

/-! ## Segments -/

theorem Segment.kind?_of_not_closed {s : Segment} (h : ¬s.Closed) : s.kind? = none := by
  obtain ⟨cls, text⟩ := s
  cases cls with
  | openString | openComment => rfl
  | token | blank | newline | lineComment | blockComment | unexpected =>
    exact absurd ⟨nofun, nofun⟩ h

/-- An open string runs on over a line end, up to a quote or to the end. -/
theorem Prescribes.string_over_line {body : List Char} (hbody : '"' ∉ body) (b : List Char) :
    ∃ s rest, Prescribes ('"' :: (body ++ '\n' :: b)) s rest ∧
      (∀ kind ∈ s.kind?, kind = .string) ∧ '"' :: body ++ ['\n'] <+: s.text := by
  obtain ⟨hmore, hrest⟩ := Segment.takeWhile_bne '"' b
  have hsplit := List.takeWhile_append_dropWhile (p := (· != '"')) (l := b)
  generalize b.takeWhile (· != '"') = more at hmore hsplit
  generalize b.dropWhile (· != '"') = rest at hrest hsplit
  subst hsplit
  have hall : '"' ∉ body ++ '\n' :: more := by simp [hbody, hmore]
  rcases hrest with rfl | hrest
  · rw [List.append_nil]
    exact ⟨_, _, .openString hall, nofun, more, by simp⟩
  · obtain ⟨after, rfl⟩ := List.head?_eq_some_iff.mp hrest
    have hquoted : Prescribes ('"' :: (body ++ '\n' :: more ++ '"' :: after)) _ after :=
      .string hall
    rw [List.append_assoc, List.cons_append] at hquoted
    exact ⟨_, _, hquoted, fun _ h => (Option.mem_some.mp h).symm, more ++ ['"'], by simp⟩

/-- An open comment runs on over a line end, up to a closing mark or to the end. -/
theorem Prescribes.comment_over_line {body : List Char} (hbody : ¬['*', '/'] <:+: body)
    (b : List Char) :
    ∃ s rest, Prescribes ('/' :: '*' :: (body ++ '\n' :: b)) s rest ∧
      s.kind? = none ∧ '/' :: '*' :: body ++ ['\n'] <+: s.text := by
  cases hs : Segment.splitComment? (body ++ '\n' :: b) with
  | none => exact ⟨_, _, .openComment (Segment.splitComment?_eq_none hs), rfl, b, by simp⟩
  | some parts =>
    obtain ⟨full, rest⟩ := parts
    obtain ⟨inner, rfl, hinner⟩ := Segment.splitComment?_eq_some hs
    have happend := Segment.splitComment?_append hs
    have hline : body ++ ['\n'] <+: inner ++ ['*', '/'] := by
      rcases prefix_append_cons_cases ⟨rest, happend⟩ with hshort | hlong
      · have hclose : ['*', '/'] <:+: inner ++ ['*', '/'] := (List.suffix_append _ _).isInfix
        exact absurd (hclose.trans hshort.isInfix) hbody
      · exact hlong
    rw [← happend, List.append_assoc]
    exact ⟨_, _, .blockComment hinner, rfl, by simpa using hline⟩

/-- A segment that is open at the end of a text takes a line end behind it in; as a token it is then
a string. -/
theorem Prescribes.exists_append_line {input rest : List Char} {s : Segment}
    (h : Prescribes input s rest) (hs : ¬s.Closed) (b : List Char) :
    rest = [] ∧ ∃ s' rest', Prescribes (input ++ '\n' :: b) s' rest' ∧
      (∀ kind ∈ s'.kind?, kind = .string) ∧ input ++ ['\n'] <+: s'.text := by
  cases h with
  | openComment hbody =>
    obtain ⟨s', rest', hs', hnone, hline⟩ := comment_over_line hbody b
    exact ⟨rfl, s', rest', hs', by simp [hnone], hline⟩
  | openString hbody => exact ⟨rfl, string_over_line hbody b⟩
  | lineComment | blockComment | string | blank | newline | lexeme | unexpected =>
    exact absurd ⟨nofun, nofun⟩ hs

/-- With more lines behind it, a text is cut into the same segments, except for those at its end
that are no tokens; the next segment takes the line end in, and as a token it is a string. -/
theorem Cut.exists_append_line {a : List Char} {ss : List Segment} (h : Cut a ss) (b : List Char) :
    ∃ front s more, Cut (a ++ '\n' :: b) (front ++ s :: more) ∧
      (∃ others, ss = front ++ others ∧ ∀ u ∈ others, u.kind? = none) ∧
      (∀ kind ∈ s.kind?, kind = .string) ∧
      a ++ ['\n'] <+: (front ++ [s]).flatMap Segment.text := by
  induction h with
  | nil =>
    refine ⟨[], _, _, .cons .newline (cut_split b), ⟨[], rfl, List.forall_mem_nil _⟩, nofun, ?_⟩
    exact List.prefix_refl _
  | @cons input rest s ss hs hcut ih =>
    by_cases hclosed : s.Closed
    · obtain ⟨front, s', more, hcut', ⟨others, rfl, hothers⟩, hkind, hline⟩ := ih
      refine ⟨s :: front, s', more, .cons (hs.append_newline hclosed b) hcut',
        ⟨others, rfl, hothers⟩, hkind, ?_⟩
      rw [← hs.text_append, List.append_assoc, List.cons_append, List.flatMap_cons]
      exact (List.prefix_append_right_inj s.text).mpr hline
    · obtain ⟨rfl, s', rest', hs', hkind, hline⟩ := hs.exists_append_line hclosed b
      obtain rfl : ss = [] := by rw [hcut.eq_split, Segment.split]
      refine ⟨[], s', _, .cons hs' (cut_split rest'), ⟨[s], rfl, ?_⟩, hkind, by simpa using hline⟩
      exact List.forall_mem_singleton.mpr (Segment.kind?_of_not_closed hclosed)

/-! ## Tokens -/

namespace Segment

theorem line_of_mem_token? {line : Int} {s : Segment} {t : Token} (h : t ∈ s.token? line) :
    t.line = line := by
  unfold token? at h
  split at h <;> cases h
  rfl

/-- Segments without tokens have the end mark only. -/
theorem tokens_of_kind?_eq_none (line : Int) {ss : List Segment} (h : ∀ s ∈ ss, s.kind? = none) :
    ∃ last, tokens line ss = [Token.endAt last] := by
  induction ss generalizing line with
  | nil => exact ⟨line, rfl⟩
  | cons s ss ih =>
    obtain ⟨hs, hss⟩ := List.forall_mem_cons.mp h
    have hnone : s.token? line = none := by
      rw [← Option.map_eq_none_iff, map_kind_token? line s]
      exact hs
    rw [tokens, hnone]
    exact ih _ hss

/-- The tokens of segments stand on the lines that these take up. -/
theorem line_of_mem_tokens {line : Int} {ss : List Segment} {t : Token}
    (h : t ∈ tokens line ss) :
    line ≤ t.line ∧ t.line ≤ line + (ss.flatMap Segment.text).count '\n' := by
  induction ss generalizing line with
  | nil =>
    cases List.mem_singleton.mp h
    simp [Token.endAt]
  | cons s ss ih =>
    rw [← line_add_newlines]
    rcases List.mem_append.mp h with ht | ht
    · have hline := line_of_mem_token? (Option.mem_toList.mp ht)
      omega
    · have hbounds := ih ht
      omega

/-- The first token of segments is a string or stands behind the first segment, if that can be no
other token. -/
theorem line_of_head?_tokens {line : Int} {s : Segment} {ss : List Segment}
    (hs : ∀ kind ∈ s.kind?, kind = .string) {t : Token} (ht : t ∈ (tokens line (s :: ss)).head?) :
    t.kind = .string ∨ line + s.newlines ≤ t.line := by
  rw [tokens] at ht
  cases htoken : s.token? line with
  | none =>
    rw [htoken] at ht
    exact .inr (line_of_mem_tokens (List.mem_of_head? ht)).1
  | some first =>
    rw [htoken] at ht
    cases ht
    have hkind := map_kind_token? line s
    rw [htoken] at hkind
    exact .inl (hs t.kind hkind.symm)

end Segment

/-- The tokens of the first lines of a text, without their end mark, are the first ones of the whole
text; they stand on these lines, and the next token is a string or stands further down. -/
theorem scan_first_lines (a b : String) :
    ∃ front last rest, (scan a).tokens = front ++ [Token.endAt last] ∧
      (scan (a ++ "\n" ++ b)).tokens = front ++ rest ∧
      (∀ t ∈ front, t.line ≤ lineCount a) ∧
      ∀ t ∈ rest.head?, t.kind = .string ∨ lineCount a < t.line := by
  obtain ⟨front, s, more, hcut, ⟨others, hothers, hnone⟩, hkind, hline⟩ :=
    (cut_split a.toList).exists_append_line b.toList
  have htext : (a ++ "\n" ++ b).toList = a.toList ++ '\n' :: b.toList := by simp
  have ha := Segment.flatMap_text_split a.toList
  rw [hothers, List.flatMap_append] at ha
  obtain ⟨ts, hts, htokens⟩ := Segment.tokens_append 1 front others
  obtain ⟨ts', hts', hwhole⟩ := Segment.tokens_append 1 front (s :: more)
  obtain ⟨rfl, -⟩ := List.append_inj' (hts'.symm.trans hts) rfl
  obtain ⟨last, hlast⟩ := Segment.tokens_of_kind?_eq_none _ hnone
  rw [hlast] at htokens
  have hscan : (scan (a ++ "\n" ++ b)).tokens = Segment.tokens 1 (front ++ s :: more) := by
    rw [scan, htext, ← hcut.eq_split]
  refine ⟨ts', last, _, by rw [scan, hothers, htokens], hscan.trans hwhole, ?_, ?_⟩
  · intro t ht
    have hmem : t ∈ Segment.tokens 1 front := by
      rw [hts]
      exact List.mem_append_left _ ht
    have hbound := (Segment.line_of_mem_tokens hmem).2
    rw [lineCount, ← ha, List.count_append]
    omega
  · intro t ht
    refine (Segment.line_of_head?_tokens hkind ht).imp_right fun hbound => ?_
    -- the segment takes the line end in, and so ends on a line behind those of the first text
    have hcount := hline.sublist.count_le '\n'
    rw [List.flatMap_append, List.count_append, List.count_append, List.flatMap_singleton] at hcount
    have hnewline : ['\n'].count '\n' = 1 := rfl
    rw [Segment.newlines] at hbound
    rw [lineCount]
    omega

/-! ## Two texts -/

/-- The end mark of a text stands on its last line, and is the only one. -/
theorem scan_tokens_eq (source : String) :
    ∃ ts, (scan source).tokens = ts ++ [Token.endAt (lineCount source)] ∧
      ∀ t ∈ ts, t.kind ≠ .eof := by
  obtain ⟨ts, last, hts, heof⟩ := exists_scan_tokens_eq source
  obtain ⟨front, hfront, -⟩ := Segment.tokens_append 1 (Segment.split source.toList) []
  rw [Segment.flatMap_text_split] at hfront
  obtain ⟨rfl, hlast⟩ := List.append_inj' (hts.symm.trans hfront) rfl
  exact ⟨ts, hfront, heof⟩

/-- A text and another one behind it on a new line. The first has its tokens and one end mark. If it
does not end inside a string or a comment, then the tokens of both texts are its own without the end
mark, and those of the second, as many lines further down as the first takes up; and so it is with
the errors. In any case its own tokens without the end mark come first. -/
theorem scan_lines_homomorphism (a b : String) :
    ∃ front, (scan a).tokens = front ++ [Token.endAt (lineCount a)] ∧
      (∀ t ∈ front, t.kind ≠ .eof) ∧
      ((∀ e ∈ (scan a).errors, ¬e.Unterminated) →
        (scan (a ++ "\n" ++ b)).tokens =
          front ++ (scan b).tokens.map (Token.shift (lineCount a)) ∧
        (scan (a ++ "\n" ++ b)).errors =
          (scan a).errors ++ (scan b).errors.map (LexError.shift (lineCount a))) ∧
      front <+: (scan (a ++ "\n" ++ b)).tokens := by
  obtain ⟨front, hfront, heof⟩ := scan_tokens_eq a
  refine ⟨front, hfront, heof, fun h => ?_, ?_⟩
  · have hclosed : ∀ s ∈ Segment.split a.toList, s.Closed := (Segment.closed_iff 1 _).mpr h
    obtain ⟨⟨front', last, hfront', -, htokens⟩, herrors⟩ := scan_append_newline hclosed b
    obtain ⟨rfl, -⟩ := List.append_inj' (hfront.symm.trans hfront') rfl
    exact ⟨htokens, herrors⟩
  · obtain ⟨front', last, rest, hfront', htokens, -⟩ := scan_first_lines a b
    obtain ⟨rfl, -⟩ := List.append_inj' (hfront.symm.trans hfront') rfl
    exact ⟨rest, htokens.symm⟩

/-- A text with an unexpected character, and one that is a string without its end. -/
theorem scan_lines_of_faulty_texts :
    let a := "x\n@"
    let b := "y \""
    (∀ e ∈ (scan a).errors, ¬e.Unterminated) ∧
    (scan (a ++ "\n" ++ b)).tokens.map (fun t => (t.lexeme, t.line)) =
      [("x", 1), ("y", 3), ("", 3)] ∧
    (scan (a ++ "\n" ++ b)).errors = [⟨.unexpectedCharacter, 2⟩, ⟨.unterminatedString, 3⟩] := by
  intro a b
  have ha : (scan a).errors = [⟨.unexpectedCharacter, 2⟩] := by cbv
  have hfine : ∀ e ∈ (scan a).errors, ¬e.Unterminated := by
    rw [ha]
    simp [LexError.Unterminated]
  obtain ⟨front, hfront, -, hboth, -⟩ := scan_lines_homomorphism a b
  obtain ⟨htokens, herrors⟩ := hboth hfine
  have hown : front = (scan a).tokens.dropLast := by rw [hfront, List.dropLast_concat]
  refine ⟨hfine, ?_, ?_⟩
  · rw [htokens, hown]
    cbv
  · rw [herrors, ha]
    cbv

end LoxLang
