import LoxLang.Proofs.Lexical.Layout
import LoxLang.Proofs.Repl.State
import Mathlib

/-! # The source that was typed

A line that begins with a command word and goes on behind it is source text, but it is put together
anew: the word, a space, and what follows without the blanks in front. Blanks are no tokens, so the
tokens stay the same, if the word is the whole first token. It is not, if a letter beyond ASCII
follows it: such letters belong to names, but not to command words (`CutsName`). Then, and only
then, the loop gives other tokens to the engine than those that were typed
(`step_scans_typed_iff`). -/

namespace LoxLang

/-! ## Stripping -/

/-- Behind the first part of a stripped text, only blanks in front are stripped. -/
theorem Text.strip_eq_dropWhile {cs front rest : List Char} (hcs : strip cs = front ++ rest) :
    strip rest = rest.dropWhile isBlank := by
  rw [strip_eq, List.rdropWhile_eq_self_iff]
  intro hne
  have hsplit := List.takeWhile_append_dropWhile (p := isBlank) (l := rest)
  rw [← hsplit, ← List.append_assoc] at hcs
  simp [isBlank_getLast hcs hne]

/-! ## Tokens -/

/-- A blank is a segment of its own, and no token. -/
theorem exists_prescribes_blank {c : Char} (hc : Text.isBlank c = true) (rest : List Char) :
    ∃ s, Prescribes (c :: rest) s rest ∧ s.token? 1 = none := by
  by_cases hnewline : c = '\n'
  · subst hnewline
    exact ⟨_, .newline, rfl⟩
  by_cases hspace : c ∈ [' ', '\r', '\t']
  · exact ⟨_, .blank hspace, rfl⟩
  refine ⟨_, .unexpected ?_ fun kind text h hpre => ?_, rfl⟩
  · have hquote : c ≠ '"' := by
      rintro rfl
      cases hc
    simp_all
  · obtain ⟨d, ds, rfl⟩ := List.exists_cons_of_ne_nil h.view.ne_nil
    obtain ⟨rfl, -⟩ := List.cons_prefix_cons.mp hpre
    exact h.not_mem_of_isBlank hc List.mem_cons_self

theorem tokensOf_blanks {blanks : List Char} (h : ∀ c ∈ blanks, Text.isBlank c = true)
    (rest : List Char) : tokensOf (blanks ++ rest) = tokensOf rest := by
  induction blanks with
  | nil => rfl
  | cons c blanks ih =>
    obtain ⟨hc, hblanks⟩ := List.forall_mem_cons.mp h
    obtain ⟨s, hs, hnone⟩ := exists_prescribes_blank hc (blanks ++ rest)
    rw [List.cons_append, hs.tokensOf_eq, hnone, ih hblanks]
    rfl

/-- The token of a name or keyword, on the first line. -/
def wordToken (word : List Char) : Token :=
  let kind := Kind.ofWord (String.ofList word)
  ⟨kind, String.ofList word, Segment.literal kind word, 1⟩

/-- The characters of a name or keyword. -/
structure IsWordText (word : List Char) : Prop where
  ne_nil : word ≠ []
  start : ∀ c ∈ word.head?, Segment.isWordStart c = true
  part : ∀ c ∈ word, Segment.isWordPart c = true

/-- A word is the first token of a text, if what follows does not go on with it. -/
theorem IsWordText.tokensOf_append {word rest : List Char} (h : IsWordText word)
    (hrest : ∀ c ∈ rest.head?, Segment.isWordPart c = false) :
    tokensOf (word ++ rest) = wordToken word :: tokensOf rest := by
  obtain ⟨c, cs, rfl⟩ := List.exists_cons_of_ne_nil h.ne_nil
  have hcs : ∀ d ∈ cs, Segment.isWordPart d = true :=
    fun d hd => h.part d (List.mem_cons_of_mem c hd)
  have hend : rest.takeWhile Segment.isWordPart = [] ∧
      rest.dropWhile Segment.isWordPart = rest := by
    cases rest with
    | nil => exact ⟨rfl, rfl⟩
    | cons d rest => simp [hrest d rfl]
  have hword := Segment.prescribes_afterWordStart (h.start c rfl) (cs ++ rest)
  rw [Segment.afterWordStart, List.takeWhile_append_of_pos hcs, List.dropWhile_append_of_pos hcs,
    hend.1, hend.2, List.append_nil] at hword
  exact hword.tokensOf_eq

/-! ## Lines that begin like a command -/

def commandWords : List String := ["help", "exit", "EOF"]

/-- The line is source text: there is something on it, and it is neither a command nor a call for
help by a question mark. -/
structure IsSource (line : String) : Prop where
  ne_empty : stripped line ≠ ""
  head : (stripped line).toList.head? ≠ some '?'
  not_command : stripped line ∉ commandWords

/-- The text begins with a command word, and a letter that is no part of the word follows it. -/
def CutsName (text : String) : Prop :=
  String.ofList (text.toList.takeWhile Command.isWordChar) ∈ commandWords ∧
    ∃ c ∈ (text.toList.dropWhile Command.isWordChar).head?, Text.isLetter c = true

theorem isWordText_of_mem_commandWords {word : String} (h : word ∈ commandWords) :
    IsWordText word.toList := by
  have hall : ∀ word ∈ commandWords, word.toList ≠ [] ∧
      word.toList.head?.all Segment.isWordStart = true ∧
      word.toList.all Segment.isWordPart = true := by decide
  obtain ⟨hne, hstart, hpart⟩ := hall word h
  exact ⟨hne, (Option.all_eq_true _ _).mp hstart, List.all_eq_true.mp hpart⟩

namespace Command

theorem ofWord_of_ne_nil (command : Command) (word : String) {argument : List Char}
    (h : argument ≠ []) :
    ofWord command word argument = source (word ++ " " ++ String.ofList argument) := by
  rw [ofWord, if_neg (by simpa using h)]

/-- A command word with something behind it is source text, whichever command it is. -/
theorem dispatch_of_mem {word : String} (hword : word ∈ commandWords) {argument : List Char}
    (h : argument ≠ []) (other : Command) :
    (if word = "help" then ofWord help word argument
      else if word = "exit" then ofWord exit word argument
      else if word = "EOF" then ofWord endOfInput word argument
      else other) = source (word ++ " " ++ String.ofList argument) := by
  simp only [commandWords, List.mem_cons, List.not_mem_nil, or_false] at hword
  rcases hword with rfl | rfl | rfl
  · exact ofWord_of_ne_nil help _ h
  · exact ofWord_of_ne_nil exit _ h
  · exact ofWord_of_ne_nil endOfInput _ h

/-- What the loop takes a line for: the stripped line, unless it begins with a command word. -/
theorem ofLine_eq_source {line : String} (h : IsSource line) :
    let text := Text.strip line.toList
    let word := String.ofList (text.takeWhile isWordChar)
    ofLine line = .source (if word ∈ commandWords then
      word ++ " " ++ String.ofList (Text.strip (text.dropWhile isWordChar))
      else stripped line) := by
  intro text word
  have hempty := h.ne_empty
  have hhead := h.head
  have hsplit := List.takeWhile_append_dropWhile (p := isWordChar) (l := text)
  rw [stripped, ne_eq, String.ofList_eq_empty_iff] at hempty
  rw [stripped, String.toList_ofList] at hhead
  unfold ofLine
  split
  · next hnil => exact absurd hnil hempty
  · next rest hmark => exact absurd (congrArg List.head? hmark) hhead
  · dsimp only
    by_cases hword : word ∈ commandWords
    · have hargument : Text.strip (text.dropWhile isWordChar) ≠ [] := by
        intro hnil
        rw [Text.eq_nil_of_strip_eq_nil hsplit.symm hnil, List.append_nil] at hsplit
        have hline : word = stripped line := congrArg String.ofList hsplit
        exact h.not_command (hline ▸ hword)
      rw [if_pos hword]
      exact dispatch_of_mem hword hargument _
    · rw [if_neg hword]
      simp only [commandWords, List.mem_cons, List.not_mem_nil, or_false, not_or] at hword
      rw [if_neg hword.1, if_neg hword.2.1, if_neg hword.2.2]
      rfl

end Command

/-! ## The tokens that are given to the engine -/

theorem IsWordText.append {word more : List Char} (h : IsWordText word)
    (hmore : ∀ c ∈ more, Segment.isWordPart c = true) : IsWordText (word ++ more) where
  ne_nil := List.append_ne_nil_of_left_ne_nil h.ne_nil more
  start := by
    obtain ⟨c, cs, rfl⟩ := List.exists_cons_of_ne_nil h.ne_nil
    exact h.start
  part := List.forall_mem_append.mpr ⟨h.part, hmore⟩

theorem isWordPart_of_isLetter {c : Char} (h : Text.isLetter c = true) :
    Segment.isWordPart c = true := by
  simp [Segment.isWordPart, Segment.isWordStart, h]

theorem eq_false_of_mem_head?_dropWhile {p : Char → Bool} {cs : List Char} {c : Char}
    (h : c ∈ (cs.dropWhile p).head?) : p c = false := by
  have hnot := List.head?_dropWhile_not p cs
  rwa [Option.mem_def.mp h] at hnot

/-- Beyond ASCII, only letters go on with a word. -/
theorem isWordPart_eq_isLetter {c : Char} (h : Command.isWordChar c = false) :
    Segment.isWordPart c = Text.isLetter c := by
  simp only [Command.isWordChar, Char.isAlphanum, Bool.or_eq_false_iff] at h
  simp [Segment.isWordPart, Segment.isWordStart, h]

/-- Between a word and what follows it, a space may be put in for the blanks, unless a letter goes
on with the word. -/
theorem IsWordText.tokensOf_space_iff {word rest : List Char} (h : IsWordText word)
    (hrest : ∀ c ∈ rest.head?, Command.isWordChar c = false) :
    tokensOf (word ++ ' ' :: rest.dropWhile Text.isBlank) = tokensOf (word ++ rest) ↔
      ¬∃ c ∈ rest.head?, Text.isLetter c = true := by
  have hspace : tokensOf (word ++ ' ' :: rest.dropWhile Text.isBlank) =
      wordToken word :: tokensOf rest := by
    have hblanks : ∀ c ∈ rest.takeWhile Text.isBlank, Text.isBlank c = true :=
      fun c hc => List.mem_takeWhile_imp hc
    have hrest' := tokensOf_blanks hblanks (rest.dropWhile Text.isBlank)
    rw [List.takeWhile_append_dropWhile] at hrest'
    have hone : ∀ c ∈ [' '], Text.isBlank c = true := List.forall_mem_singleton.mpr (by decide)
    rw [h.tokensOf_append (by rintro c ⟨⟩; decide), hrest',
      ← tokensOf_blanks hone (rest.dropWhile Text.isBlank)]
    rfl
  rw [hspace]
  constructor
  · rintro heq ⟨c, hc, hletter⟩
    obtain ⟨more, rfl⟩ := List.head?_eq_some_iff.mp hc
    -- the letter and what goes on behind it belong to the first token of the text
    have hfull : IsWordText (word ++ (c :: more).takeWhile Segment.isWordPart) :=
      h.append fun d hd => List.mem_takeWhile_imp hd
    have hend : ∀ d ∈ ((c :: more).dropWhile Segment.isWordPart).head?,
        Segment.isWordPart d = false :=
      fun d hd => eq_false_of_mem_head?_dropWhile hd
    have htokens := hfull.tokensOf_append hend
    rw [List.append_assoc, List.takeWhile_append_dropWhile] at htokens
    rw [htokens] at heq
    have hlexeme : String.ofList word = String.ofList _ :=
      congrArg Token.lexeme (List.cons.inj heq).1
    rw [String.ofList_inj, List.self_eq_append_right, List.takeWhile_cons,
      if_pos (isWordPart_of_isLetter hletter)] at hlexeme
    cases hlexeme
  · intro hnot
    refine (h.tokensOf_append fun c hc => ?_).symm
    rw [isWordPart_eq_isLetter (hrest c hc), ← Bool.not_eq_true]
    exact fun hletter => hnot ⟨c, hc, hletter⟩

/-- The text that a line is taken for has the tokens of the stripped line, unless a name is cut. -/
theorem tokensOf_source_iff {line text : String} (h : IsSource line)
    (htext : Command.ofLine line = .source text) :
    tokensOf text.toList = tokensOf (stripped line).toList ↔ ¬CutsName (stripped line) := by
  rw [Command.ofLine_eq_source h, Command.source.injEq] at htext
  subst htext
  rw [CutsName, stripped, String.toList_ofList]
  have hsplit := List.takeWhile_append_dropWhile (p := Command.isWordChar)
    (l := Text.strip line.toList)
  split
  · next hword =>
    have hend : ∀ c ∈ ((Text.strip line.toList).dropWhile Command.isWordChar).head?,
        Command.isWordChar c = false :=
      fun c hc => eq_false_of_mem_head?_dropWhile hc
    have hiff := (isWordText_of_mem_commandWords hword).tokensOf_space_iff hend
    rw [String.toList_ofList, hsplit] at hiff
    rw [Text.strip_eq_dropWhile hsplit.symm]
    simpa [hword] using hiff
  · next hword => simp [hword]

theorem Repl.step_of_source {r : Repl} (hr : r.pending = "") {line text : String}
    (h : Command.ofLine line = .source text) :
    r.step line = if isBlockOpen text then
      ⟨{ r with pending := text ++ "\n", prompt := .secondary }, false, []⟩ else r.ran text := by
  rw [step, h]
  dsimp only
  rw [submit_eq, closed?, kept, hr, String.empty_append]
  split <;> rfl

/-- What a loop in which nothing is pending does with a line of source text: it takes a text for it,
and keeps the text back if it leaves a block open, or runs it. The tokens of the text are those of
the stripped line, up to lines, if and only if the line does not begin with a command word that a
letter goes on with. -/
theorem step_scans_typed_iff (r : Repl) (hr : r.pending = "") (line : String) (h : IsSource line) :
    ∃ text, Command.ofLine line = .source text ∧
      r.step line = (if isBlockOpen text then
        ⟨{ r with pending := text ++ "\n", prompt := .secondary }, false, []⟩ else r.ran text) ∧
      ((scan text).tokens.map Token.unlined = (scan (stripped line)).tokens.map Token.unlined ↔
        ¬CutsName (stripped line)) := by
  have htext := Command.ofLine_eq_source h
  refine ⟨_, htext, r.step_of_source hr htext, ?_⟩
  rw [map_unlined_scan, map_unlined_scan, List.append_left_inj]
  exact tokensOf_source_iff h htext

/-- A line that begins with the word `help`, with a tab and a control character behind it, which are
both blanks. -/
theorem help_scans_as_typed :
    let line := " help\t\x0b= a; "
    let text := "help = a;"
    Repl.empty.pending = "" ∧ IsSource line ∧ Command.ofLine line = .source text ∧
    (scan (stripped line)).errors = [⟨.unexpectedCharacter, 1⟩] ∧
    (scan text).tokens.map Token.unlined = (scan (stripped line)).tokens.map Token.unlined := by
  intro line text
  have hline : stripped line = "help\t\x0b= a;" := by cbv
  have hsource : IsSource line := by
    refine ⟨?_, ?_, ?_⟩ <;> rw [hline] <;> decide
  have hcuts : ¬CutsName (stripped line) := by
    rw [hline]
    rintro ⟨-, c, hc, hletter⟩
    cases hc
    exact absurd hletter (by decide)
  have htext : Command.ofLine line = .source text := by cbv
  obtain ⟨text', htext', -, hiff⟩ := step_scans_typed_iff Repl.empty rfl line hsource
  obtain rfl : text = text' := Command.source.inj (htext.symm.trans htext')
  refine ⟨rfl, hsource, htext, ?_, hiff.mpr hcuts⟩
  rw [hline]
  cbv

/-- The loop does not always scan the tokens that were typed: the name in `exité;` is cut behind the
command word `exit`. -/
theorem not_always_scans_typed :
    ¬∀ (r : Repl) (line : String), r.pending = "" → IsSource line →
      ∃ text, Command.ofLine line = .source text ∧
        (scan text).tokens.map Token.unlined =
          (scan (stripped line)).tokens.map Token.unlined := by
  intro h
  let line := "exité;"
  have hline : stripped line = line := by cbv
  have hsource : IsSource line := by
    refine ⟨?_, ?_, ?_⟩ <;> rw [hline] <;> decide
  obtain ⟨text, htext, htokens⟩ := h Repl.empty line rfl hsource
  rw [map_unlined_scan, map_unlined_scan, List.append_left_inj, tokensOf_source_iff hsource htext,
    hline] at htokens
  exact htokens ⟨by decide, 'é', by decide, by decide⟩

end LoxLang
