import LoxLang.Proofs.Lexical.Scan
import LoxLang.Proofs.Lines.Basic

/-! # Scanning line by line

No lexeme crosses a line end, and a line comment ends at one. So a text that ends inside no string
and no comment is cut in the same way when more lines follow it, and the lines that follow are cut
as they are alone (`Segment.split_append_newline`). The tokens of both texts are then those of
their parts, the second some lines further down (`scan_append_newline`). A line end alone may stand
behind any text, also inside an open string or comment: the kinds of the tokens stay the same
(`map_kind_scan_newline`). -/

namespace LoxLang

/-! ## Line ends -/

/-- A lexeme stands on one line. -/
theorem Lexeme.newline_not_mem {kind : Kind} {text : List Char} (h : Lexeme kind text) :
    '\n' ∉ text :=
  h.not_mem_of_isBlank (by decide)

/-- What begins a text either ends in front of a mark in it or takes the mark in. -/
theorem prefix_append_cons_cases {α : Type} {mark : α} {text front rest : List α}
    (h : text <+: front ++ mark :: rest) : text <+: front ∨ front ++ [mark] <+: text := by
  rcases List.prefix_or_prefix_of_prefix h (List.prefix_append front (mark :: rest)) with h' | h'
  · exact .inl h'
  obtain ⟨more, rfl⟩ := h'
  have hmore := (List.prefix_append_right_inj front).mp h
  cases more with
  | nil => exact .inl (by simp)
  | cons c more =>
    obtain ⟨rfl, -⟩ := List.cons_prefix_cons.mp hmore
    exact .inr ⟨more, by simp⟩

/-- What stands in front of a mark and does not contain it does not reach it. -/
theorem prefix_of_prefix_append_cons {α : Type} {mark : α} {text front rest : List α}
    (htext : mark ∉ text) (h : text <+: front ++ mark :: rest) : text <+: front := by
  rcases prefix_append_cons_cases h with h' | h'
  · exact h'
  · exact absurd (h'.subset (List.mem_append_right front List.mem_cons_self)) htext

theorem Longest.append_blank {text input : List Char} (h : Longest text input) {c : Char}
    (hc : Text.isBlank c = true) (more : List Char) : Longest text (input ++ c :: more) := by
  intro kind text' hlexeme hpre
  exact h kind text' hlexeme (prefix_of_prefix_append_cons (hlexeme.not_mem_of_isBlank hc) hpre)

/-! ## Segments -/

/-- The segment does not run to the end of the text for want of a closing mark. -/
def Segment.Closed (s : Segment) : Prop := s.cls ≠ .openString ∧ s.cls ≠ .openComment

/-- The error is that the text ends inside a string or a comment. -/
def LexError.Unterminated (e : LexError) : Prop :=
  e.cause = .unterminatedString ∨ e.cause = .unterminatedComment

/-- A segment that is closed stays the one prescribed when more lines follow. -/
theorem Prescribes.append_newline {input rest : List Char} {s : Segment}
    (h : Prescribes input s rest) (hs : s.Closed) (more : List Char) :
    Prescribes (input ++ '\n' :: more) s (rest ++ '\n' :: more) := by
  cases h with
  | @lineComment body rest hbody hrest =>
    have hrest' : rest ++ '\n' :: more = [] ∨ (rest ++ '\n' :: more).head? = some '\n' := by
      rcases hrest with rfl | hrest
      · exact .inr rfl
      · exact .inr (by rw [List.head?_append, hrest]; rfl)
    rw [List.cons_append, List.cons_append, List.append_assoc]
    exact .lineComment hbody hrest'
  | @blockComment body rest hbody =>
    rw [List.cons_append, List.cons_append, List.append_assoc]
    exact .blockComment hbody
  | openComment => exact absurd rfl hs.2
  | @string body rest hbody =>
    rw [List.cons_append, List.append_assoc]
    exact .string hbody
  | openString => exact absurd rfl hs.1
  | blank hc => exact .blank hc
  | newline => exact .newline
  | @lexeme kind text rest hlexeme hline hblock hlongest =>
    -- A comment or a longer lexeme at this place would have to reach over the line end.
    rw [List.append_assoc]
    refine .lexeme hlexeme ?_ ?_ ?_
    · rw [← List.append_assoc]
      exact fun hpre => hline (prefix_of_prefix_append_cons (by decide) hpre)
    · rw [← List.append_assoc]
      exact fun hpre => hblock (prefix_of_prefix_append_cons (by decide) hpre)
    · rw [← List.append_assoc]
      exact hlongest.append_blank (by decide) more
  | unexpected hc hnone =>
    refine .unexpected hc fun kind text hlexeme hpre => hnone kind text hlexeme ?_
    exact prefix_of_prefix_append_cons hlexeme.newline_not_mem hpre

theorem Cut.append_newline {a b : List Char} {ss ts : List Segment} (ha : Cut a ss)
    (hss : ∀ s ∈ ss, s.Closed) (hb : Cut b ts) :
    Cut (a ++ '\n' :: b) (ss ++ ⟨.newline, ['\n']⟩ :: ts) := by
  induction ha with
  | nil => exact .cons .newline hb
  | cons hs _ ih =>
    obtain ⟨hclosed, hss⟩ := List.forall_mem_cons.mp hss
    exact .cons (hs.append_newline hclosed b) (ih hss)

namespace Segment

theorem split_append_newline {a : List Char} (h : ∀ s ∈ split a, s.Closed) (b : List Char) :
    split (a ++ '\n' :: b) = split a ++ ⟨.newline, ['\n']⟩ :: split b :=
  ((cut_split a).append_newline h (cut_split b)).eq_split.symm

/-! ## Tokens and errors -/

theorem shift_token? (lines line : Int) (s : Segment) :
    s.token? (line + lines) = (s.token? line).map (Token.shift lines) := by
  unfold token?
  split <;> rfl

theorem shift_error? (lines line : Int) (s : Segment) :
    s.error? (line + lines) = (s.error? line).map (LexError.shift lines) := by
  unfold error?
  rw [Option.map_map, Int.add_right_comm]
  rfl

/-- Segments that start some lines further down have their tokens there. -/
theorem tokens_shift (lines line : Int) (ss : List Segment) :
    tokens (line + lines) ss = (tokens line ss).map (Token.shift lines) := by
  induction ss generalizing line with
  | nil => rfl
  | cons s ss ih =>
    rw [tokens, tokens, shift_token?, Int.add_right_comm, ih, List.map_append,
      Option.toList_map]

theorem errors_shift (lines line : Int) (ss : List Segment) :
    errors (line + lines) ss = (errors line ss).map (LexError.shift lines) := by
  induction ss generalizing line with
  | nil => rfl
  | cons s ss ih =>
    rw [errors, errors, shift_error?, Int.add_right_comm, ih, List.map_append,
      Option.toList_map]

/-- The line behind segments is counted segment by segment. -/
theorem line_add_newlines (line : Int) (s : Segment) (ss : List Segment) :
    line + s.newlines + (ss.flatMap Segment.text).count '\n' =
      line + ((s :: ss).flatMap Segment.text).count '\n' := by
  rw [List.flatMap_cons, List.count_append, newlines]
  omega

/-- The tokens of segments with more behind them: those of the first without their end mark, and
those of the rest on the line where the first end. -/
theorem tokens_append (line : Int) (ss ts : List Segment) :
    ∃ front, tokens line ss =
        front ++ [Token.endAt (line + (ss.flatMap Segment.text).count '\n')] ∧
      tokens line (ss ++ ts) =
        front ++ tokens (line + (ss.flatMap Segment.text).count '\n') ts := by
  induction ss generalizing line with
  | nil => exact ⟨[], by simp [tokens], by simp⟩
  | cons s ss ih =>
    obtain ⟨front, hend, happend⟩ := ih (line + s.newlines)
    rw [line_add_newlines] at hend happend
    refine ⟨(s.token? line).toList ++ front, ?_, ?_⟩
    · rw [tokens, hend, List.append_assoc]
    · rw [List.cons_append, tokens, happend, List.append_assoc]

theorem errors_append (line : Int) (ss ts : List Segment) :
    errors line (ss ++ ts) =
      errors line ss ++ errors (line + (ss.flatMap Segment.text).count '\n') ts := by
  induction ss generalizing line with
  | nil => simp [errors]
  | cons s ss ih =>
    rw [List.cons_append, errors, errors, ih, line_add_newlines, List.append_assoc]

theorem closed_iff_error? (line : Int) (s : Segment) :
    s.Closed ↔ ∀ e ∈ s.error? line, ¬e.Unterminated := by
  obtain ⟨cls, text⟩ := s
  cases cls <;> simp [Closed, error?, cause?, LexError.Unterminated]

/-- All segments are closed if and only if no error says otherwise. -/
theorem closed_iff (line : Int) (ss : List Segment) :
    (∀ s ∈ ss, s.Closed) ↔ ∀ e ∈ errors line ss, ¬e.Unterminated := by
  induction ss generalizing line with
  | nil => simp [errors]
  | cons s ss ih =>
    simp only [List.forall_mem_cons, errors, List.forall_mem_append, Option.mem_toList]
    exact and_congr (closed_iff_error? line s) (ih _)

theorem closed_of_errors_eq_nil {line : Int} {ss : List Segment} (h : errors line ss = []) :
    ∀ s ∈ ss, s.Closed := by
  rw [closed_iff line, h]
  exact List.forall_mem_nil _

end Segment

/-- Only the last token of a source marks an end. -/
theorem exists_scan_tokens_eq (source : String) :
    ∃ ts last, (scan source).tokens = ts ++ [Token.endAt last] ∧ ∀ t ∈ ts, t.kind ≠ .eof := by
  obtain ⟨ts, last, hts, -, heof⟩ := Segment.tokens_eq 1 fun s hs line t ht => by
    obtain ⟨input, rest, hprescribes⟩ := (cut_split source.toList).exists_prescribes hs
    exact hprescribes.isTokenOf ht
  exact ⟨ts, last, hts, heof⟩

/-- The lines that a text takes up when another text follows it on a new line. -/
def lineCount (source : String) : Int := 1 + source.toList.count '\n'

/-- The tokens of a text that ends inside no string and no comment, with another text behind it on
a new line, are the tokens of both, with one end mark; and the errors are those of both. -/
theorem scan_append_newline {a : String} (h : ∀ s ∈ Segment.split a.toList, s.Closed) (b : String) :
    (∃ front last, (scan a).tokens = front ++ [Token.endAt last] ∧ (∀ t ∈ front, t.kind ≠ .eof) ∧
      (scan (a ++ "\n" ++ b)).tokens =
        front ++ (scan b).tokens.map (Token.shift (lineCount a))) ∧
    (scan (a ++ "\n" ++ b)).errors =
      (scan a).errors ++ (scan b).errors.map (LexError.shift (lineCount a)) := by
  have htext : (a ++ "\n" ++ b).toList = a.toList ++ '\n' :: b.toList := by simp
  have hsplit := Segment.split_append_newline h b.toList
  have hline : (1 : Int) + a.toList.count '\n' + (⟨.newline, ['\n']⟩ : Segment).newlines =
      1 + lineCount a := by
    change (1 : Int) + a.toList.count '\n' + (1 : Nat) = 1 + (1 + a.toList.count '\n')
    omega
  obtain ⟨ts, last, hts, heof⟩ := exists_scan_tokens_eq a
  obtain ⟨front, hend, happend⟩ := Segment.tokens_append 1 (Segment.split a.toList)
    (⟨.newline, ['\n']⟩ :: Segment.split b.toList)
  have herrors := Segment.errors_append 1 (Segment.split a.toList)
    (⟨.newline, ['\n']⟩ :: Segment.split b.toList)
  rw [Segment.flatMap_text_split, Segment.tokens, hline, Segment.tokens_shift] at happend
  rw [Segment.flatMap_text_split, Segment.errors, hline, Segment.errors_shift] at herrors
  rw [scan, hend] at hts
  obtain ⟨rfl, -⟩ := List.append_inj' hts rfl
  unfold scan
  rw [htext, hsplit]
  exact ⟨⟨front, _, hend, heof, happend⟩, herrors⟩

/-! ## A line end behind any text -/

namespace Segment

/-- The kind of the token that a segment is. -/
def kind? (s : Segment) : Option Kind :=
  match s.cls with
  | .token kind => some kind
  | _ => none

theorem map_kind_token? (line : Int) (s : Segment) : (s.token? line).map Token.kind = s.kind? := by
  obtain ⟨cls, text⟩ := s
  cases cls <;> rfl

theorem map_kind_tokens (line : Int) (ss : List Segment) :
    (tokens line ss).map Token.kind = ss.filterMap kind? ++ [.eof] := by
  induction ss generalizing line with
  | nil => rfl
  | cons s ss ih =>
    rw [tokens, List.map_append, ih, List.filterMap_cons, ← Option.toList_map, map_kind_token?]
    cases s.kind? <;> rfl

end Segment

/-- An open string or comment takes a line end behind it in. -/
theorem Prescribes.newline_of_not_closed {input rest : List Char} {s : Segment}
    (h : Prescribes input s rest) (hs : ¬s.Closed) :
    rest = [] ∧ Prescribes (input ++ ['\n']) ⟨s.cls, s.text ++ ['\n']⟩ [] := by
  cases h with
  | @openComment body hbody =>
    refine ⟨rfl, .openComment fun hmark => ?_⟩
    rcases List.infix_concat_iff.mp hmark with hmark | hmark
    · rcases List.suffix_concat_iff.mp hmark with hnil | ⟨front, hfront, -⟩
      · cases hnil
      · have hlast := congrArg List.getLast? hfront
        simp at hlast
    · exact hbody hmark
  | openString hbody => exact ⟨rfl, .openString (by simpa using hbody)⟩
  | lineComment | blockComment | string | blank | newline | lexeme | unexpected =>
    exact absurd ⟨nofun, nofun⟩ hs

/-- A line end behind a text adds no token to it. -/
theorem Cut.exists_newline {input : List Char} {ss : List Segment} (h : Cut input ss) :
    ∃ ts, Cut (input ++ ['\n']) ts ∧ ts.filterMap Segment.kind? = ss.filterMap Segment.kind? := by
  induction h with
  | nil => exact ⟨_, .cons .newline .nil, rfl⟩
  | @cons input rest s ss hs hcut ih =>
    by_cases hclosed : s.Closed
    · obtain ⟨ts, hts, hkinds⟩ := ih
      refine ⟨s :: ts, .cons (hs.append_newline hclosed []) hts, ?_⟩
      rw [List.filterMap_cons, List.filterMap_cons, hkinds]
    · obtain ⟨rfl, hnewline⟩ := hs.newline_of_not_closed hclosed
      obtain rfl : ss = [] := by rw [hcut.eq_split, Segment.split]
      exact ⟨_, .cons hnewline .nil, rfl⟩

theorem map_kind_scan_newline (source : String) :
    (scan (source ++ "\n")).tokens.map Token.kind = (scan source).tokens.map Token.kind := by
  obtain ⟨ts, hts, hkinds⟩ := (cut_split source.toList).exists_newline
  have htext : (source ++ "\n").toList = source.toList ++ ['\n'] := by simp
  rw [scan, scan, Segment.map_kind_tokens, Segment.map_kind_tokens, htext, ← hts.eq_split, hkinds]

end LoxLang
