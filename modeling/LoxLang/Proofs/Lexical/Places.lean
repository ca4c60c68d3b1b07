import LoxLang.Proofs.Lexical.FirstLines

/-! # The lines of tokens and errors

Scanning counts lines from segment to segment. The count is right at every offset at which a segment
starts: it is one more than the number of line ends in front of the offset (`lineAt`). So every
token is on the line of its first character, the end mark is on the last line, an unexpected
character is reported on its own line, and an open string or comment on the last one
(`scan_lines_eq_lineAt`). -/

namespace LoxLang

/-- The line of the character at an offset of a text. -/
def lineAt (source : String) (offset : Nat) : Int := 1 + (source.toList.take offset).count '\n'

/-- A segment, and the offset of its first character in a text. -/
structure Placed where
  offset : Nat
  segment : Segment

/-- The segments with their offsets, of which the first is given. -/
def Segment.placed (offset : Nat) : List Segment → List Placed
  | [] => []
  | s :: ss => ⟨offset, s⟩ :: placed (offset + s.text.length) ss

/-- The token is that of the segment, on the line where the segment starts. -/
structure TokenAt (source : String) (p : Placed) (t : Token) : Prop where
  token : IsTokenOf p.segment t
  line : t.line = lineAt source p.offset

/-- The error says what is wrong with the segment. An unexpected character is on the line where it
stands; a string or comment that never ends is reported on the last line. -/
structure ErrorAt (source : String) (p : Placed) (e : LexError) : Prop where
  message : p.segment.complaint? = some e.cause.message
  line : e.line = if p.segment.cls = .unexpected then lineAt source p.offset else lineCount source

/-! ## Counting lines -/

section

variable {source : String} {front : List Char} {s : Segment} {ss : List Segment}

theorem lineAt_of_eq_append {input : List Char} (h : source.toList = front ++ input) :
    lineAt source front.length = 1 + front.count '\n' := by
  rw [lineAt, h, List.take_left]

theorem lineAt_add_count_drop (source : String) (offset : Nat) :
    lineAt source offset + (source.toList.drop offset).count '\n' = lineCount source := by
  have hcount := congrArg (List.count '\n') (List.take_append_drop offset source.toList)
  rw [List.count_append] at hcount
  rw [lineAt, lineCount]
  omega

/-- Behind a segment, as many lines were counted more as the segment has line ends. -/
theorem lineAt_step (h : source.toList = front ++ (s :: ss).flatMap Segment.text) :
    source.toList = (front ++ s.text) ++ ss.flatMap Segment.text ∧
      lineAt source (front ++ s.text).length = lineAt source front.length + s.newlines := by
  have hnext : source.toList = (front ++ s.text) ++ ss.flatMap Segment.text := by
    rw [h, List.flatMap_cons, List.append_assoc]
  refine ⟨hnext, ?_⟩
  rw [lineAt_of_eq_append h, lineAt_of_eq_append hnext, List.count_append, Segment.newlines]
  omega

namespace Segment

/-- The tokens of the segments that end a text are on the lines at the offsets of the segments. -/
theorem tokens_eq_filterMap_placed (h : source.toList = front ++ ss.flatMap Segment.text) :
    tokens (lineAt source front.length) ss =
      (placed front.length ss).filterMap (fun p => p.segment.token? (lineAt source p.offset)) ++
        [Token.endAt (lineCount source)] := by
  induction ss generalizing front with
  | nil =>
    have hend := lineAt_add_count_drop source front.length
    rw [h, List.drop_left, List.flatMap_nil, List.count_nil] at hend
    rw [← hend]
    exact congrArg (fun line => [Token.endAt line]) (Int.add_zero _).symm
  | cons s ss ih =>
    obtain ⟨hnext, hline⟩ := lineAt_step h
    have hss := ih hnext
    rw [hline, List.length_append] at hss
    rw [tokens, hss, placed, List.filterMap_cons]
    cases s.token? (lineAt source front.length) <;> rfl

theorem errors_eq_filterMap_placed (h : source.toList = front ++ ss.flatMap Segment.text) :
    errors (lineAt source front.length) ss =
      (placed front.length ss).filterMap (fun p => p.segment.error? (lineAt source p.offset)) := by
  induction ss generalizing front with
  | nil => rfl
  | cons s ss ih =>
    obtain ⟨hnext, hline⟩ := lineAt_step h
    have hss := ih hnext
    rw [hline, List.length_append] at hss
    rw [errors, hss, placed, List.filterMap_cons]
    cases s.error? (lineAt source front.length) <;> rfl

end Segment

/-- Each segment of a cut is prescribed where it is placed. -/
theorem Cut.prescribes_placed {input : List Char} (hcut : Cut input ss)
    (h : source.toList = front ++ input) {p : Placed}
    (hp : p ∈ Segment.placed front.length ss) :
    ∃ rest, Prescribes (source.toList.drop p.offset) p.segment rest := by
  induction hcut generalizing front with
  | nil => cases hp
  | @cons input rest s ss hs hcut ih =>
    rcases List.mem_cons.mp hp with rfl | hp
    · rw [h, List.drop_left]
      exact ⟨rest, hs⟩
    · rw [← List.length_append] at hp
      exact ih (by rw [h, ← hs.text_append, List.append_assoc]) hp

end

/-! ## Tokens and errors -/

theorem forall₂_filter_filterMap {α β : Type} {R : α → β → Prop} {f : α → Option β} {p : α → Bool}
    {l : List α} (hp : ∀ a ∈ l, (f a).isSome = p a) (h : ∀ a ∈ l, ∀ b ∈ f a, R a b) :
    List.Forall₂ R (l.filter p) (l.filterMap f) := by
  induction l with
  | nil => exact .nil
  | cons a l ih =>
    obtain ⟨ha, hl⟩ := List.forall_mem_cons.mp hp
    obtain ⟨hRa, hRl⟩ := List.forall_mem_cons.mp h
    rw [List.filterMap_cons]
    cases hfa : f a with
    | none =>
      rw [hfa] at ha
      rw [List.filter_cons_of_neg (by simp [← ha])]
      exact ih hl hRl
    | some b =>
      rw [hfa] at ha
      rw [List.filter_cons_of_pos ha.symm]
      exact .cons (hRa b hfa) (ih hl hRl)

theorem Segment.isSome_error? (line : Int) (s : Segment) :
    (s.error? line).isSome = s.complaint?.isSome := by
  obtain ⟨cls, text⟩ := s
  cases cls <;> rfl

theorem Prescribes.tokenAt {source : String} {p : Placed} {rest : List Char}
    (h : Prescribes (source.toList.drop p.offset) p.segment rest) {t : Token}
    (ht : t ∈ p.segment.token? (lineAt source p.offset)) : TokenAt source p t :=
  ⟨(h.isTokenOf ht).1, Segment.line_of_mem_token? ht⟩

/-- An unexpected character is no line end, and what is open runs to the end of the text. -/
theorem Prescribes.errorAt {source : String} {p : Placed} {rest : List Char}
    (h : Prescribes (source.toList.drop p.offset) p.segment rest) {e : LexError}
    (he : e ∈ p.segment.error? (lineAt source p.offset)) : ErrorAt source p e := by
  obtain ⟨offset, s⟩ := p
  dsimp only at h he
  have hend := lineAt_add_count_drop source offset
  generalize source.toList.drop offset = input at h hend
  cases h with
  | openComment | openString =>
    cases he
    exact ⟨rfl, hend⟩
  | @unexpected c rest hc =>
    cases he
    have hnewline : '\n' ∉ [c] := by
      rintro hmem
      cases List.mem_singleton.mp hmem
      exact hc (by decide)
    refine ⟨rfl, ?_⟩
    simp [Segment.newlines, List.count_eq_zero.mpr hnewline]
  | lineComment | blockComment | string | blank | newline | lexeme => cases he

/-! ## The order of lines -/

namespace Segment

theorem tokens_line_sorted (line : Int) (ss : List Segment) :
    (tokens line ss).Pairwise fun t u => t.line ≤ u.line := by
  induction ss generalizing line with
  | nil => exact List.pairwise_singleton _ _
  | cons s ss ih =>
    rw [tokens, List.pairwise_append]
    refine ⟨?_, ih _, fun t ht u hu => ?_⟩
    · cases s.token? line <;> simp
    · have hline := line_of_mem_token? (Option.mem_toList.mp ht)
      have hbound := (line_of_mem_tokens hu).1
      omega

theorem line_of_mem_errors {line : Int} {ss : List Segment} {e : LexError}
    (h : e ∈ errors line ss) : line ≤ e.line := by
  induction ss generalizing line with
  | nil => cases h
  | cons s ss ih =>
    rcases List.mem_append.mp h with h | h
    · obtain ⟨cause, -, rfl⟩ := Option.map_eq_some_iff.mp (Option.mem_toList.mp h)
      dsimp only
      omega
    · have hbound := ih h
      omega

theorem errors_line_sorted (line : Int) (ss : List Segment) :
    (errors line ss).Pairwise fun d e => d.line ≤ e.line := by
  induction ss generalizing line with
  | nil => exact .nil
  | cons s ss ih =>
    rw [errors, List.pairwise_append]
    refine ⟨?_, ih _, fun d hd e he => ?_⟩
    · cases s.error? line <;> simp
    · obtain ⟨cause, -, rfl⟩ := Option.map_eq_some_iff.mp (Option.mem_toList.mp hd)
      exact line_of_mem_errors he

end Segment

/-- The only cut of a text places each of its segments at an offset, where the segment is the one
prescribed. The tokens are those of the token segments in order, each on the line of its offset, and
the end mark on the last line. The errors are those of the segments that are wrong, in order: of an
unexpected character on the line of its offset, and of a string or comment without an end on the
last line. So the lines of the tokens and those of the errors never decrease. -/
theorem scan_lines_eq_lineAt (source : String) :
    ∃ segments, (∀ ss, Cut source.toList ss ↔ ss = segments) ∧
      (∀ p ∈ Segment.placed 0 segments,
        ∃ rest, Prescribes (source.toList.drop p.offset) p.segment rest) ∧
      (∃ tokens, (scan source).tokens = tokens ++ [Token.endAt (lineCount source)] ∧
        List.Forall₂ (TokenAt source)
          ((Segment.placed 0 segments).filter (·.segment.isToken)) tokens) ∧
      List.Forall₂ (ErrorAt source)
        ((Segment.placed 0 segments).filter (·.segment.complaint?.isSome)) (scan source).errors ∧
      (scan source).tokens.Pairwise (fun t u => t.line ≤ u.line) ∧
      (scan source).errors.Pairwise fun d e => d.line ≤ e.line := by
  have hcut := cut_split source.toList
  have hplaced {p : Placed} (hp : p ∈ Segment.placed 0 (Segment.split source.toList)) :
      ∃ rest, Prescribes (source.toList.drop p.offset) p.segment rest :=
    hcut.prescribes_placed (List.nil_append _).symm hp
  have hsource : source.toList = [] ++ (Segment.split source.toList).flatMap Segment.text :=
    (Segment.flatMap_text_split _).symm
  refine ⟨_, fun ss => cut_iff, fun p => hplaced,
    ⟨_, Segment.tokens_eq_filterMap_placed hsource, ?_⟩, ?_,
    Segment.tokens_line_sorted 1 _, Segment.errors_line_sorted 1 _⟩
  · refine forall₂_filter_filterMap (fun p _ => Segment.isSome_token? _ _) fun p hp t ht => ?_
    obtain ⟨rest, hprescribes⟩ := hplaced hp
    exact hprescribes.tokenAt ht
  · have herrors : (scan source).errors = _ := Segment.errors_eq_filterMap_placed hsource
    rw [herrors]
    refine forall₂_filter_filterMap (fun p _ => Segment.isSome_error? _ _) fun p hp e he => ?_
    obtain ⟨rest, hprescribes⟩ := hplaced hp
    exact hprescribes.errorAt he

end LoxLang
