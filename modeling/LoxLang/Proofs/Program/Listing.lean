import LoxLang.Program.Basic
import LoxLang.Proofs.Lexical.Scan
import LoxLang.Proofs.Number.Display

/-! # Listed tokens

A token is listed by its kind, its lexeme and its literal, without the blanks at the end
(`Token.ListedAs`). The text of a scanned token is on one line, unless the token is a string that is
written over several lines (`listedAs_of_mem_scan`); so a listing without such strings has one line
for each token (`Program.count_newline_unlines`). -/

namespace LoxLang

/-- The token is listed as the text. -/
structure Token.ListedAs (t : Token) (text : String) : Prop where
  /-- The text is the name of the kind, the lexeme and the literal, up to blanks behind them. -/
  parts : ∃ blanks : List Char, (∀ c ∈ blanks, Text.isBlank c = true) ∧
    t.kind.name ++ " " ++ t.lexeme ++ " " ++ t.literal.listing = text ++ String.ofList blanks
  ending : ∀ c ∈ text.toList.getLast?, Text.isBlank c = false
  /-- Only a string can take more than one line, and only if it was written so. -/
  oneLine : '\n' ∈ text.toList → t.kind = .string ∧ '\n' ∈ t.lexeme.toList

/-! ## Line ends in a listing -/

theorem Kind.newline_not_mem_name (k : Kind) : '\n' ∉ k.name.toList := by
  cases k <;> decide

theorem Number.newline_not_mem_text (x : Number) : '\n' ∉ x.text.toList := by
  have hsign (s : Float.Model.UnpackedFloat.Sign) : '\n' ∉ (signText s).toList := by
    cases s <;> decide
  unfold text
  split
  · decide
  · simp [hsign]
  · simp [hsign]
  · next s m e hm _ =>
    obtain ⟨v, ⟨d, hwrites, -⟩, -⟩ := Span.shortest_writes hm e
    have hshortest : '\n' ∉ (Span.ofBinary m e).shortest.text := fun hmem =>
      absurd (hwrites.mem_cases _ hmem) (by decide)
    simp [hsign, hshortest]

/-- A line end in the listing of a scanned token is one of a string. -/
theorem newline_of_mem_scan {source : String} {t : Token} (ht : t ∈ (scan source).tokens)
    (h : '\n' ∈ (t.kind.name ++ " " ++ t.lexeme ++ " " ++ t.literal.listing).toList) :
    t.kind = .string ∧ '\n' ∈ t.lexeme.toList := by
  simp only [String.toList_append, List.mem_append, Kind.newline_not_mem_name, false_or] at h
  rcases Segment.mem_tokens ht with ⟨last, rfl⟩ | ⟨s, hs, line, htoken⟩
  · exact absurd h (by simp [Token.endAt, Value.listing])
  · obtain ⟨input, rest, hprescribes⟩ := (cut_split source.toList).exists_prescribes hs
    cases hprescribes with
    | @string body =>
      cases htoken
      rw [Segment.literal_string] at h
      refine ⟨rfl, ?_⟩
      simpa [Value.listing] using h
    | @lexeme kind text _ hlexeme =>
      cases htoken
      have htext : '\n' ∉ text := hlexeme.not_mem_of_isBlank (by decide)
      have hliteral : '\n' ∉ (Segment.literal kind text).listing.toList := by
        unfold Segment.literal
        split
        · simpa [Value.listing] using Number.newline_not_mem_text _
        · exact absurd rfl hlexeme.view.kind_cases.1
        · decide
      simp [htext, hliteral] at h
    | lineComment | blockComment | openComment | openString | blank | newline | unexpected =>
      cases htoken

theorem listedAs_of_mem_scan {source : String} {t : Token} (ht : t ∈ (scan source).tokens) :
    t.ListedAs t.text := by
  generalize hfull : t.kind.name ++ " " ++ t.lexeme ++ " " ++ t.literal.listing = full
  have htext : t.text.toList = full.toList.rdropWhile Text.isBlank := by
    rw [Token.text, hfull, String.toList_ofList]
    rfl
  refine ⟨⟨full.toList.rtakeWhile Text.isBlank, fun c => List.mem_rtakeWhile_imp, ?_⟩, ?_, ?_⟩
  · rw [hfull, ← String.toList_inj, String.toList_append, String.toList_ofList, htext,
      List.rdropWhile_append_rtakeWhile]
  · intro c hc
    rw [htext] at hc
    obtain ⟨hne, rfl⟩ := List.mem_getLast?_eq_getLast hc
    simpa using List.rdropWhile_last_not Text.isBlank full.toList hne
  · intro hmem
    rw [htext] at hmem
    refine newline_of_mem_scan ht ?_
    rw [hfull]
    exact (List.rdropWhile_prefix _ _).mem hmem

/-! ## Lines -/

namespace Program

/-- Texts without line ends in them make one line each. -/
theorem count_newline_unlines {texts : List String} (h : ∀ text ∈ texts, '\n' ∉ text.toList) :
    (unlines texts).toList.count '\n' = texts.length := by
  induction texts with
  | nil => rfl
  | cons text texts ih =>
    obtain ⟨htext, htexts⟩ := List.forall_mem_cons.mp h
    have hunlines : unlines (text :: texts) = text ++ "\n" ++ unlines texts := by
      simp [unlines]
    simp [hunlines, ih htexts, List.count_eq_zero_of_not_mem htext]

end Program
end LoxLang
