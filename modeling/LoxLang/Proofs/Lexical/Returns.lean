import LoxLang.Proofs.Lexical.Scan
import LoxLang.SourceFile
import Mathlib

/-! # Scanning a text with carriage returns

A file may end its lines by a carriage return and a line feed. If a text has carriage returns only
there (`Text.ReturnsPaired`), then reading it from a file leaves them out. Its segments are those of
the text itself without carriage returns, and the blanks that carriage returns are between tokens
disappear (`Cut.exists_withoutReturns`): a carriage return between two characters does not let them
join, because a line feed stays there (`Text.prefix_of_prefix_withoutReturns`). So a source that is
read from a file has the tokens and errors of the text in the file, with unified line ends in the
strings (`scan_of_file_with_returns`). -/

namespace LoxLang

/-! ## Texts -/

namespace Text

/-- Each carriage return of the text stands in front of a line feed. -/
def ReturnsPaired (cs : List Char) : Prop :=
  ∀ front rest, cs = front ++ '\r' :: rest → rest.head? = some '\n'

/-- The text with a line feed in place of each carriage return and the line feed behind it. -/
def replacePairs : List Char → List Char
  | [] => []
  | [c] => [c]
  | c :: d :: rest =>
    if c = '\r' ∧ d = '\n' then '\n' :: replacePairs rest else c :: replacePairs (d :: rest)

/-- The text with its carriage returns left out. -/
def withoutReturns (cs : List Char) : List Char := cs.filter (· != '\r')

namespace ReturnsPaired

theorem of_append_right {front cs : List Char} (h : ReturnsPaired (front ++ cs)) :
    ReturnsPaired cs := by
  rintro before rest rfl
  exact h (front ++ before) rest (List.append_assoc ..).symm

theorem of_cons {c : Char} {cs : List Char} (h : ReturnsPaired (c :: cs)) : ReturnsPaired cs :=
  @of_append_right [c] cs h

/-- A carriage return has its line feed in every part of the text that does not end with it. -/
theorem of_append_left {cs more : List Char} (h : ReturnsPaired (cs ++ more))
    (hcs : cs.getLast? ≠ some '\r') : ReturnsPaired cs := by
  rintro front rest rfl
  have hhead := h front (rest ++ more) (by simp)
  cases rest with
  | nil => exact absurd (by simp) hcs
  | cons c rest => exact hhead

theorem nil : ReturnsPaired [] := by
  rintro (_ | ⟨c, front⟩) rest h <;> cases h

theorem cons_iff {c : Char} {cs : List Char} :
    ReturnsPaired (c :: cs) ↔ (c = '\r' → cs.head? = some '\n') ∧ ReturnsPaired cs := by
  constructor
  · intro h
    exact ⟨fun hc => h [] cs (by rw [hc]; rfl), h.of_cons⟩
  · rintro ⟨hc, hcs⟩ (_ | ⟨d, front⟩) rest h
    · obtain ⟨rfl, rfl⟩ := List.cons_eq_cons.mp h
      exact hc rfl
    · obtain ⟨rfl, rfl⟩ := List.cons_eq_cons.mp h
      exact hcs front rest rfl

instance decidable : (cs : List Char) → Decidable (ReturnsPaired cs)
  | [] => .isTrue nil
  | _ :: cs => have := decidable cs; decidable_of_iff _ cons_iff.symm

end ReturnsPaired

theorem withoutReturns_of_not_mem {cs : List Char} (h : '\r' ∉ cs) : withoutReturns cs = cs := by
  refine List.filter_eq_self.mpr fun c hc => ?_
  rw [bne_iff_ne]
  rintro rfl
  exact h hc

@[simp]
theorem withoutReturns_nil : withoutReturns [] = [] :=
  rfl

@[simp]
theorem withoutReturns_cons_of_ne {c : Char} (hc : c ≠ '\r') (cs : List Char) :
    withoutReturns (c :: cs) = c :: withoutReturns cs :=
  List.filter_cons_of_pos (bne_iff_ne.mpr hc)

@[simp]
theorem withoutReturns_append (cs ds : List Char) :
    withoutReturns (cs ++ ds) = withoutReturns cs ++ withoutReturns ds :=
  List.filter_append ..

theorem count_newline_withoutReturns (cs : List Char) :
    (withoutReturns cs).count '\n' = cs.count '\n' :=
  List.count_filter (by decide)

theorem unifyNewlines_of_paired {cs : List Char} (h : ReturnsPaired cs) :
    unifyNewlines cs = withoutReturns cs := by
  fun_induction unifyNewlines cs with
  | case1 rest ih => exact congrArg ('\n' :: ·) (ih h.of_cons.of_cons)
  | case2 rest hrest _ =>
    have hhead := h [] rest rfl
    obtain ⟨rest', rfl⟩ := List.head?_eq_some_iff.mp hhead
    exact absurd rfl (hrest rest')
  | case3 c rest _ hc ih => rw [ih h.of_cons, withoutReturns_cons_of_ne hc]
  | case4 => rfl

theorem replacePairs_of_paired {cs : List Char} (h : ReturnsPaired cs) :
    replacePairs cs = withoutReturns cs := by
  fun_induction replacePairs cs with
  | case1 => rfl
  | case2 c =>
    have hc : c ≠ '\r' := by
      rintro rfl
      cases h [] [] rfl
    rw [withoutReturns_cons_of_ne hc, withoutReturns_nil]
  | case3 c d rest hpair ih =>
    obtain ⟨rfl, rfl⟩ := hpair
    exact congrArg ('\n' :: ·) (ih h.of_cons.of_cons)
  | case4 c d rest hpair ih =>
    have hc : c ≠ '\r' := by
      rintro rfl
      exact hpair ⟨rfl, Option.some.inj (h [] (d :: rest) rfl)⟩
    rw [ih h.of_cons, withoutReturns_cons_of_ne hc]

/-- What begins a text without its carriage returns, and does not reach over a line end, begins the
text itself. -/
theorem prefix_of_prefix_withoutReturns {cs w : List Char} (h : ReturnsPaired cs) (hw : '\n' ∉ w)
    (hpre : w <+: withoutReturns cs) : w <+: cs := by
  induction cs generalizing w with
  | nil => exact hpre
  | cons c cs ih =>
    cases w with
    | nil => exact List.nil_prefix
    | cons d w =>
      by_cases hc : c = '\r'
      · subst hc
        obtain ⟨rest, rfl⟩ := List.head?_eq_some_iff.mp (h [] cs rfl)
        obtain ⟨rfl, -⟩ := List.cons_prefix_cons.mp hpre
        exact absurd List.mem_cons_self hw
      · rw [withoutReturns_cons_of_ne hc] at hpre
        obtain ⟨rfl, htail⟩ := List.cons_prefix_cons.mp hpre
        exact List.cons_prefix_cons.mpr
          ⟨rfl, ih h.of_cons (List.not_mem_of_not_mem_cons hw) htail⟩

theorem infix_of_infix_withoutReturns {cs w : List Char} (h : ReturnsPaired cs) (hw : '\n' ∉ w)
    (hin : w <:+: withoutReturns cs) : w <:+: cs := by
  obtain ⟨front, rest, happend⟩ := hin
  rw [List.append_assoc] at happend
  obtain ⟨before, input, rfl, -, hinput⟩ := List.filter_eq_append_iff.mp happend.symm
  have hpre : w <+: withoutReturns input := ⟨rest, hinput.symm⟩
  exact (prefix_of_prefix_withoutReturns h.of_append_right hw hpre).isInfix.trans
    (List.suffix_append before input).isInfix

end Text

open Text

/-! ## Segments -/

/-- The segment with its carriage returns left out. -/
def Segment.withoutReturns (s : Segment) : Segment := ⟨s.cls, Text.withoutReturns s.text⟩

/-- A carriage return that is a blank of its own. -/
def Segment.carriageReturn : Segment := ⟨.blank, ['\r']⟩

theorem Lexeme.withoutReturns_eq {kind : Kind} {text : List Char} (h : Lexeme kind text) :
    Text.withoutReturns text = text :=
  withoutReturns_of_not_mem (h.not_mem_of_isBlank (by decide))

/-- A segment is the one prescribed in the text without carriage returns too, unless it is a
carriage return itself. -/
theorem Prescribes.withoutReturns {input rest : List Char} {s : Segment}
    (h : Prescribes input s rest) (hinput : ReturnsPaired input)
    (hs : s ≠ Segment.carriageReturn) :
    Prescribes (Text.withoutReturns input) s.withoutReturns (Text.withoutReturns rest) := by
  cases h with
  | @lineComment body rest hbody hrest =>
    -- the carriage return of the line's end is part of the comment
    have hbody' : '\n' ∉ Text.withoutReturns body := fun hmem => hbody (List.mem_filter.mp hmem).1
    have hrest' : Text.withoutReturns rest = [] ∨
        (Text.withoutReturns rest).head? = some '\n' := by
      rcases hrest with rfl | hrest
      · exact .inl rfl
      · obtain ⟨rest, rfl⟩ := List.head?_eq_some_iff.mp hrest
        exact .inr rfl
    simpa [Segment.withoutReturns] using Prescribes.lineComment hbody' hrest'
  | @blockComment body rest hbody =>
    have hmore : ReturnsPaired ((body ++ ['*']) ++ '/' :: rest) := by
      simpa using hinput.of_cons.of_cons
    have hbody' : ¬['*', '/'] <:+: Text.withoutReturns body ++ ['*'] := by
      intro hmark
      refine hbody (infix_of_infix_withoutReturns (hmore.of_append_left (by simp)) (by decide) ?_)
      rwa [withoutReturns_append]
    have hcomment : Prescribes _ _ (Text.withoutReturns rest) := .blockComment hbody'
    simpa [Segment.withoutReturns] using hcomment
  | @openComment body hbody =>
    have hbody' : ¬['*', '/'] <:+: Text.withoutReturns body := fun hmark =>
      hbody (infix_of_infix_withoutReturns hinput.of_cons.of_cons (by decide) hmark)
    simpa [Segment.withoutReturns] using Prescribes.openComment hbody'
  | @string body rest hbody =>
    have hbody' : '"' ∉ Text.withoutReturns body := fun hmem => hbody (List.mem_filter.mp hmem).1
    have hstring : Prescribes _ _ (Text.withoutReturns rest) := .string hbody'
    simpa [Segment.withoutReturns] using hstring
  | @openString body hbody =>
    have hbody' : '"' ∉ Text.withoutReturns body := fun hmem => hbody (List.mem_filter.mp hmem).1
    simpa [Segment.withoutReturns] using Prescribes.openString hbody'
  | @blank c rest hc =>
    have hreturn : c ≠ '\r' := by
      rintro rfl
      exact hs rfl
    have hblank : Prescribes _ _ (Text.withoutReturns rest) := .blank hc
    simpa [Segment.withoutReturns, hreturn] using hblank
  | newline => exact .newline
  | @lexeme kind text rest hlexeme hline hblock hlongest =>
    -- a comment or a longer lexeme at this place would begin the text itself
    have hbegins {w : List Char} (hw : '\n' ∉ w)
        (hpre : w <+: Text.withoutReturns (text ++ rest)) : w <+: text ++ rest :=
      prefix_of_prefix_withoutReturns hinput hw hpre
    rw [withoutReturns_append, hlexeme.withoutReturns_eq] at hbegins
    rw [Segment.withoutReturns, withoutReturns_append, hlexeme.withoutReturns_eq]
    refine .lexeme hlexeme ?_ ?_ ?_
    · exact fun hpre => hline (hbegins (by decide) hpre)
    · exact fun hpre => hblock (hbegins (by decide) hpre)
    · intro kind' text' hlexeme' hpre
      exact hlongest kind' text' hlexeme' (hbegins (hlexeme'.not_mem_of_isBlank (by decide)) hpre)
  | @unexpected c rest hc hnone =>
    have hreturn : c ≠ '\r' := by
      rintro rfl
      exact hc (by decide)
    have hnone' (kind : Kind) (text : List Char) (hlexeme : Lexeme kind text) :
        ¬text <+: c :: Text.withoutReturns rest := by
      rw [← withoutReturns_cons_of_ne hreturn]
      exact fun hpre => hnone kind text hlexeme
        (prefix_of_prefix_withoutReturns hinput (hlexeme.not_mem_of_isBlank (by decide)) hpre)
    simpa [Segment.withoutReturns, hreturn] using Prescribes.unexpected hc hnone'

/-! ## Tokens and errors -/

/-- The text with a line feed in place of each pair of carriage return and line feed. -/
def Text.unified (s : String) : String := String.ofList (replacePairs s.toList)

/-- The token with unified line ends, if it is a string; any other token as it is. -/
def Token.unified (t : Token) : Token :=
  match t.kind, t.literal with
  | .string, .string s =>
    { t with lexeme := Text.unified t.lexeme, literal := .string (Text.unified s) }
  | _, _ => t

theorem Token.unified_of_ne_string {t : Token} (h : t.kind ≠ .string) : t.unified = t := by
  unfold unified
  split
  · contradiction
  · rfl

theorem Text.unified_ofList {cs : List Char} (h : ReturnsPaired cs) :
    unified (String.ofList cs) = String.ofList (withoutReturns cs) := by
  rw [unified, String.toList_ofList, replacePairs_of_paired h]

namespace Segment

theorem newlines_withoutReturns (s : Segment) : s.withoutReturns.newlines = s.newlines :=
  count_newline_withoutReturns s.text

theorem error?_withoutReturns (line : Int) (s : Segment) :
    s.withoutReturns.error? line = s.error? line := by
  rw [error?, error?, newlines_withoutReturns]
  rfl

end Segment

/-- Only strings can have carriage returns in them. -/
theorem Prescribes.token?_withoutReturns {input rest : List Char} {s : Segment}
    (h : Prescribes input s rest) (hinput : ReturnsPaired input) (line : Int) :
    s.withoutReturns.token? line = (s.token? line).map Token.unified := by
  cases h with
  | @string body rest =>
    have hlast : body.getLast? ≠ some '\r' := by
      intro hlast
      obtain ⟨front, rfl⟩ := List.getLast?_eq_some_iff.mp hlast
      have hhead := hinput ('"' :: front) ('"' :: rest) (by simp)
      simp at hhead
    have hbody : ReturnsPaired body := hinput.of_cons.of_append_left hlast
    have htext : ReturnsPaired ('"' :: (body ++ ['"'])) := by
      have hmore : ReturnsPaired (('"' :: body) ++ ['"'] ++ rest) := by simpa using hinput
      exact hmore.of_append_left (by rw [List.getLast?_concat]; decide)
    have hquoted : Text.withoutReturns ('"' :: (body ++ ['"'])) =
        '"' :: (Text.withoutReturns body ++ ['"']) := by simp
    simp only [Segment.withoutReturns, Segment.token?, Option.map_some, Token.unified,
      Segment.literal_string, unified_ofList htext, unified_ofList hbody, hquoted]
  | @lexeme kind text rest hlexeme =>
    have hkind : kind ≠ .string := hlexeme.view.kind_cases.1
    rw [Segment.withoutReturns, hlexeme.withoutReturns_eq]
    exact congrArg some (Token.unified_of_ne_string hkind).symm
  | lineComment | blockComment | openComment | openString | blank | newline | unexpected => rfl

/-- A text is cut without its carriage returns as it is cut with them, into the same tokens and
errors. -/
theorem Cut.exists_withoutReturns {input : List Char} {ss : List Segment} (h : Cut input ss)
    (hinput : ReturnsPaired input) :
    ∃ ts, Cut (Text.withoutReturns input) ts ∧ ∀ line,
      Segment.tokens line ts = (Segment.tokens line ss).map Token.unified ∧
      Segment.errors line ts = Segment.errors line ss := by
  induction h with
  | nil => exact ⟨[], .nil, fun line => ⟨rfl, rfl⟩⟩
  | @cons input rest s ss hs _ ih =>
    have hrest : ReturnsPaired rest := by
      rw [← hs.text_append] at hinput
      exact hinput.of_append_right
    obtain ⟨ts, hts, hsame⟩ := ih hrest
    by_cases hreturn : s = Segment.carriageReturn
    · subst hreturn
      rw [← hs.text_append]
      refine ⟨ts, hts, fun line => ?_⟩
      have hline : line + (Segment.carriageReturn.newlines : Int) = line := Int.add_zero line
      obtain ⟨htokens, herrors⟩ := hsame line
      rw [Segment.tokens, Segment.errors, hline]
      exact ⟨htokens, herrors⟩
    · refine ⟨s.withoutReturns :: ts, .cons (hs.withoutReturns hinput hreturn) hts,
        fun line => ?_⟩
      obtain ⟨htokens, herrors⟩ := hsame (line + s.newlines)
      rw [Segment.tokens, Segment.tokens, Segment.errors, Segment.errors,
        Segment.newlines_withoutReturns, Segment.error?_withoutReturns,
        hs.token?_withoutReturns hinput, htokens, herrors, List.map_append, Option.toList_map]
      exact ⟨rfl, rfl⟩

/-- A file holds a text in which every carriage return stands in front of a line feed. The source
that is read from the file has the tokens of the text, of the same kinds and on the same lines, with
unified line ends inside the strings; and it has the same errors. -/
theorem scan_of_file_with_returns (bytes : List UInt8) (s : String)
    (hbytes : Utf8.decode bytes = .ok s.toList) (hs : ReturnsPaired s.toList) (path : String) :
    ∃ source, (SourceFile.ofBytes bytes).source path = .ok source ∧
      (scan source).tokens = (scan s).tokens.map Token.unified ∧
      (scan source).errors = (scan s).errors := by
  have htext : (Text.unified s).toList = Text.withoutReturns s.toList := by
    rw [Text.unified, String.toList_ofList, replacePairs_of_paired hs]
  have hfile : SourceFile.ofBytes bytes = .text (Text.unified s) := by
    rw [SourceFile.ofBytes, hbytes]
    dsimp only
    rw [unifyNewlines_of_paired hs, ← htext, String.ofList_toList]
  obtain ⟨ts, hts, hsame⟩ := (cut_split s.toList).exists_withoutReturns hs
  rw [hts.eq_split, ← htext] at hsame
  exact ⟨Text.unified s, by rw [hfile]; rfl, hsame 1⟩

/-- Carriage returns inside a string, behind a line comment, between the characters of a closing
mark, and between two equals signs. -/
theorem scan_of_file_with_four_returns :
    let s := "\"a\r\nb\"//\r\n/**\r\n/*/=\r\n="
    let bytes := [34, 97, 13, 10, 98, 34, 47, 47, 13, 10, 47, 42, 42, 13, 10, 47, 42, 47, 61, 13,
      10, 61]
    Utf8.decode bytes = .ok s.toList ∧ ReturnsPaired s.toList ∧
    ∃ source, (SourceFile.ofBytes bytes).source "a" = .ok source ∧
      (scan source).tokens.map (fun t => (t.lexeme, t.line)) =
        [("\"a\nb\"", 1), ("=", 4), ("=", 5), ("", 5)] ∧
      (scan source).errors = [] := by
  have hpaired : ReturnsPaired "\"a\r\nb\"//\r\n/**\r\n/*/=\r\n=".toList := by decide
  obtain ⟨source, hsource, htokens, herrors⟩ := scan_of_file_with_returns
    [34, 97, 13, 10, 98, 34, 47, 47, 13, 10, 47, 42, 42, 13, 10, 47, 42, 47, 61, 13, 10, 61]
    "\"a\r\nb\"//\r\n/**\r\n/*/=\r\n=" (by rfl) hpaired "a"
  refine ⟨by rfl, hpaired, source, hsource, ?_, ?_⟩
  · rw [htokens]
    cbv
  · rw [herrors]
    cbv

end LoxLang
