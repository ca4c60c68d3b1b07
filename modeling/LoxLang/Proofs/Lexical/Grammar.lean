import LoxLang.Segment

/-! # The lexical grammar

What the segments of a source text are, stated without reference to how they are found. `Lexeme` is
the grammar of operators, numbers and words; `Prescribes input s rest` says that `s` is the segment
at the start of `input`, with `rest` behind it, and `Cut` is its repetition up to the end. Comments
and strings come first and end at their first closing mark; other tokens are as long as the text
allows (`Longest`). `LexemeView` sorts the lexemes by their first character; no lexeme has a blank
in it (`Lexeme.not_mem_of_isBlank`). -/

namespace LoxLang

/-! ## Lexemes -/

/-- The operators and marks. -/
def operatorTable : List (List Char × Kind) :=
  [(['('], .leftParen), ([')'], .rightParen), (['{'], .leftBrace), (['}'], .rightBrace),
   ([','], .comma), (['.'], .dot), (['-'], .minus), (['+'], .plus), ([';'], .semicolon),
   (['/'], .slash), (['*'], .star), (['!'], .bang), (['!', '='], .bangEqual), (['='], .equal),
   (['=', '='], .equalEqual), (['>'], .greater), (['>', '='], .greaterEqual), (['<'], .less),
   (['<', '='], .lessEqual)]

/-- The reserved words. -/
def keywordTable : List (String × Kind) :=
  [("and", .kwAnd), ("class", .kwClass), ("else", .kwElse), ("false", .kwFalse), ("for", .kwFor),
   ("fun", .kwFun), ("if", .kwIf), ("nil", .kwNil), ("or", .kwOr), ("print", .kwPrint),
   ("return", .kwReturn), ("super", .kwSuper), ("this", .kwThis), ("true", .kwTrue),
   ("var", .kwVar), ("while", .kwWhile)]

/-- Digits, possibly followed by a point and more digits. -/
inductive IsNumber : List Char → Prop
  | whole {ds : List Char} : ds ≠ [] → (∀ d ∈ ds, d.isDigit = true) → IsNumber ds
  | decimal {ds fs : List Char} : ds ≠ [] → (∀ d ∈ ds, d.isDigit = true) →
    fs ≠ [] → (∀ d ∈ fs, d.isDigit = true) → IsNumber (ds ++ '.' :: fs)

/-- A letter or underscore, followed by letters, underscores and digits. -/
inductive IsWord : List Char → Prop
  | intro {c : Char} {cs : List Char} : Text.isLetter c = true ∨ c = '_' →
    (∀ d ∈ cs, Text.isLetter d = true ∨ d = '_' ∨ d.isDigit = true) → IsWord (c :: cs)

/-- The text is an operator, number or word, of this kind. -/
inductive Lexeme : Kind → List Char → Prop
  | operator {text : List Char} {kind : Kind} : (text, kind) ∈ operatorTable → Lexeme kind text
  | number {text : List Char} : IsNumber text → Lexeme .number text
  | keyword {text : List Char} {kind : Kind} :
    IsWord text → (String.ofList text, kind) ∈ keywordTable → Lexeme kind text
  | identifier {text : List Char} :
    IsWord text → (∀ kind, (String.ofList text, kind) ∉ keywordTable) → Lexeme .identifier text

/-- No lexeme at the start of the input is longer than the text. -/
def Longest (text input : List Char) : Prop :=
  ∀ kind text', Lexeme kind text' → text' <+: input → text'.length ≤ text.length

/-! ## Segments -/

/-- The segment at the start of a text, and the rest behind it. -/
inductive Prescribes : List Char → Segment → List Char → Prop
  /-- A line comment ends before the next line end, or with the text. -/
  | lineComment {body rest : List Char} : '\n' ∉ body → (rest = [] ∨ rest.head? = some '\n') →
    Prescribes ('/' :: '/' :: (body ++ rest)) ⟨.lineComment, '/' :: '/' :: body⟩ rest
  /-- A block comment ends with the first closing mark behind the opening one. -/
  | blockComment {body rest : List Char} : ¬['*', '/'] <:+: body ++ ['*'] →
    Prescribes ('/' :: '*' :: (body ++ '*' :: '/' :: rest))
      ⟨.blockComment, '/' :: '*' :: (body ++ ['*', '/'])⟩ rest
  | openComment {body : List Char} : ¬['*', '/'] <:+: body →
    Prescribes ('/' :: '*' :: body) ⟨.openComment, '/' :: '*' :: body⟩ []
  | string {body rest : List Char} : '"' ∉ body →
    Prescribes ('"' :: (body ++ '"' :: rest)) ⟨.token .string, '"' :: (body ++ ['"'])⟩ rest
  | openString {body : List Char} : '"' ∉ body →
    Prescribes ('"' :: body) ⟨.openString, '"' :: body⟩ []
  | blank {c : Char} {rest : List Char} : c ∈ [' ', '\r', '\t'] →
    Prescribes (c :: rest) ⟨.blank, [c]⟩ rest
  | newline {rest : List Char} : Prescribes ('\n' :: rest) ⟨.newline, ['\n']⟩ rest
  /-- Where no comment begins, the longest lexeme is taken. -/
  | lexeme {kind : Kind} {text rest : List Char} : Lexeme kind text →
    ¬['/', '/'] <+: text ++ rest → ¬['/', '*'] <+: text ++ rest → Longest text (text ++ rest) →
    Prescribes (text ++ rest) ⟨.token kind, text⟩ rest
  /-- A character that begins nothing is a segment of its own. -/
  | unexpected {c : Char} {rest : List Char} : c ∉ [' ', '\r', '\t', '\n', '"'] →
    (∀ kind text, Lexeme kind text → ¬text <+: c :: rest) →
    Prescribes (c :: rest) ⟨.unexpected, [c]⟩ rest

/-- The text is cut into the segments, each the one prescribed at its place. -/
inductive Cut : List Char → List Segment → Prop
  | nil : Cut [] []
  | cons {input rest : List Char} {s : Segment} {ss : List Segment} :
    Prescribes input s rest → Cut rest ss → Cut input (s :: ss)

/-! ## Lexemes by their first character -/

namespace Segment

theorem of_single? {c : Char} {kind : Kind} (h : single? c = some kind) :
    extensible? c = none ∧ c ≠ '/' ∧ c.isDigit = false ∧ isWordStart c = false := by
  unfold single? at h
  split at h <;> first | decide | cases h

theorem of_extensible? {c : Char} {kinds : Kind × Kind} (h : extensible? c = some kinds) :
    single? c = none ∧ c ≠ '/' ∧ c.isDigit = false ∧ isWordStart c = false := by
  unfold extensible? at h
  split at h <;> first | decide | cases h

theorem isWordStart_of_isDigit {c : Char} (h : c.isDigit = true) : isWordStart c = false := by
  have hrange : 48 ≤ c.toNat ∧ c.toNat ≤ 57 := by
    simp only [Char.isDigit, Bool.and_eq_true, decide_eq_true_eq, ge_iff_le,
      UInt32.le_iff_toNat_le] at h
    exact h
  have halpha : c.isAlpha = false := by
    rw [← Bool.not_eq_true]
    intro halpha
    unfold Char.isAlpha Char.isUpper Char.isLower at halpha
    simp only [Bool.or_eq_true, Bool.and_eq_true, decide_eq_true_eq, ge_iff_le,
      UInt32.le_iff_toNat_le] at halpha
    change (65 ≤ c.toNat ∧ c.toNat ≤ 90) ∨ (97 ≤ c.toNat ∧ c.toNat ≤ 122) at halpha
    omega
  have hunderscore : c ≠ '_' := by
    rintro rfl
    cases h
  have hascii : c.toNat < 0x80 := by omega
  simp [isWordStart, Text.isLetter, hascii, halpha, hunderscore]

end Segment

theorem Kind.ofWord_of_mem {word : String} {kind : Kind} (h : (word, kind) ∈ keywordTable) :
    ofWord word = kind := by
  have hall : ∀ entry ∈ keywordTable, ofWord entry.1 = entry.2 := by decide
  exact hall _ h

theorem Kind.ofWord_of_not_mem {word : String} (h : ∀ kind, (word, kind) ∉ keywordTable) :
    ofWord word = identifier := by
  have hall : ∀ entry ∈ keywords, entry ∈ keywordTable := by decide
  have hnone : keywords.lookup word = none := by
    rw [List.lookup_eq_none_iff]
    rintro ⟨other, kind⟩ hmem
    rw [bne_iff_ne]
    rintro rfl
    exact h kind (hall _ hmem)
  rw [ofWord, hnone]
  rfl

/-- The lexemes by the cases that their first character distinguishes. -/
inductive LexemeView : Kind → List Char → Prop
  | single {c : Char} {kind : Kind} : Segment.single? c = some kind → LexemeView kind [c]
  | short {c : Char} {long short : Kind} :
    Segment.extensible? c = some (long, short) → LexemeView short [c]
  | long {c : Char} {long short : Kind} :
    Segment.extensible? c = some (long, short) → LexemeView long [c, '=']
  | slash : LexemeView .slash ['/']
  | number {c : Char} {cs : List Char} :
    c.isDigit = true → IsNumber (c :: cs) → LexemeView .number (c :: cs)
  | word {c : Char} {cs : List Char} : Segment.isWordStart c = true →
    (∀ d ∈ cs, Segment.isWordPart d = true) →
    LexemeView (Kind.ofWord (String.ofList (c :: cs))) (c :: cs)

theorem operatorTable_view : ∀ entry ∈ operatorTable, LexemeView entry.2 entry.1 := by
  simp only [operatorTable, List.forall_mem_cons]
  exact ⟨.single rfl, .single rfl, .single rfl, .single rfl, .single rfl, .single rfl, .single rfl,
    .single rfl, .single rfl, .slash, .single rfl, .short rfl, .long rfl, .short rfl, .long rfl,
    .short rfl, .long rfl, .short rfl, .long rfl, nofun⟩

theorem IsNumber.view {text : List Char} (h : IsNumber text) : LexemeView .number text := by
  cases h with
  | whole hne hds =>
    cases text with
    | nil => exact absurd rfl hne
    | cons d ds => exact .number (hds d (List.mem_cons_self ..)) (.whole hne hds)
  | @decimal ds fs hne hds hfs hall =>
    cases ds with
    | nil => exact absurd rfl hne
    | cons d ds => exact .number (hds d (List.mem_cons_self ..)) (.decimal hne hds hfs hall)

theorem IsWord.view {text : List Char} (h : IsWord text) :
    LexemeView (Kind.ofWord (String.ofList text)) text := by
  cases h with
  | intro hc hcs =>
    refine .word (by simpa [Segment.isWordStart] using hc) fun d hd => ?_
    simpa [Segment.isWordPart, Segment.isWordStart, or_assoc] using hcs d hd

theorem Lexeme.view {kind : Kind} {text : List Char} (h : Lexeme kind text) :
    LexemeView kind text := by
  cases h with
  | operator h => exact operatorTable_view _ h
  | number h => exact h.view
  | keyword hword h => exact Kind.ofWord_of_mem h ▸ hword.view
  | identifier hword h => exact Kind.ofWord_of_not_mem h ▸ hword.view

theorem LexemeView.lexeme {kind : Kind} {text : List Char} (h : LexemeView kind text) :
    Lexeme kind text := by
  cases h with
  | single h =>
    unfold Segment.single? at h
    split at h <;> cases h <;> exact .operator (by decide)
  | short h | long h =>
    unfold Segment.extensible? at h
    split at h <;> cases h <;> exact .operator (by decide)
  | slash => exact .operator (by decide)
  | number _ h => exact .number h
  | @word c cs hc hcs =>
    have hword : IsWord (c :: cs) := by
      refine .intro (by simpa [Segment.isWordStart] using hc) fun d hd => ?_
      simpa [Segment.isWordPart, Segment.isWordStart, or_assoc] using hcs d hd
    by_cases h : ∃ kind, (String.ofList (c :: cs), kind) ∈ keywordTable
    · obtain ⟨kind, h⟩ := h
      rw [Kind.ofWord_of_mem h]
      exact .keyword hword h
    · have hnot : ∀ kind, (String.ofList (c :: cs), kind) ∉ keywordTable :=
        fun kind hmem => h ⟨kind, hmem⟩
      rw [Kind.ofWord_of_not_mem hnot]
      exact .identifier hword hnot

namespace LexemeView

variable {kind : Kind} {c : Char} {cs : List Char}

theorem eq_nil_of_single? {kind' : Kind} (h : Segment.single? c = some kind')
    (hview : LexemeView kind (c :: cs)) : cs = [] := by
  obtain ⟨hext, -, hdigit, hword⟩ := Segment.of_single? h
  cases hview with
  | single | short | slash => rfl
  | long h' => rw [hext] at h'; cases h'
  | number h' => rw [hdigit] at h'; cases h'
  | word h' => rw [hword] at h'; cases h'

theorem of_extensible? {kinds : Kind × Kind} (h : Segment.extensible? c = some kinds)
    (hview : LexemeView kind (c :: cs)) : cs = [] ∨ cs = ['='] := by
  obtain ⟨-, -, hdigit, hword⟩ := Segment.of_extensible? h
  cases hview with
  | single | short | slash => exact .inl rfl
  | long => exact .inr rfl
  | number h' => rw [hdigit] at h'; cases h'
  | word h' => rw [hword] at h'; cases h'

theorem eq_nil_of_slash (hview : LexemeView kind ('/' :: cs)) : cs = [] := by
  cases hview with
  | single | short | slash => rfl
  | long h | number h | word h => cases h

theorem isNumber_of_isDigit (h : c.isDigit = true) (hview : LexemeView kind (c :: cs)) :
    cs = [] ∨ IsNumber (c :: cs) := by
  cases hview with
  | single | short | slash => exact .inl rfl
  | long h' => rw [(Segment.of_extensible? h').2.2.1] at h; cases h
  | number _ h => exact .inr h
  | word h' => rw [Segment.isWordStart_of_isDigit h] at h'; cases h'

theorem isWordPart_of_isWordStart (h : Segment.isWordStart c = true)
    (hview : LexemeView kind (c :: cs)) : ∀ d ∈ cs, Segment.isWordPart d = true := by
  cases hview with
  | single | short | slash => nofun
  | long h' => rw [(Segment.of_extensible? h').2.2.2] at h; cases h
  | number h' => rw [Segment.isWordStart_of_isDigit h'] at h; cases h
  | word _ h => exact h

end LexemeView

theorem longest_cons {c : Char} {cs text : List Char}
    (h : ∀ kind ds, LexemeView kind (c :: ds) → ds <+: cs → ds.length ≤ text.length) :
    Longest (c :: text) (c :: cs) := by
  intro kind text' hlexeme hpre
  cases text' with
  | nil => exact Nat.zero_le _
  | cons d ds =>
    obtain ⟨rfl, hds⟩ := List.cons_prefix_cons.mp hpre
    exact Nat.succ_le_succ (h kind ds hlexeme.view hds)

/-! ## Blanks -/

namespace Text

theorem inRanges_eq_true_iff {ranges : List (Nat × Nat)} {c : Char} :
    inRanges ranges c = true ↔ ∃ r ∈ ranges, r.1 ≤ c.toNat ∧ c.toNat ≤ r.2 := by
  simp [inRanges]

/-- Tables that do not overlap have no character in common. -/
theorem inRanges_eq_false_of_disjoint {ranges others : List (Nat × Nat)}
    (h : ∀ r ∈ ranges, ∀ q ∈ others, r.2 < q.1 ∨ q.2 < r.1) {c : Char}
    (hc : inRanges ranges c = true) : inRanges others c = false := by
  rw [← Bool.not_eq_true, inRanges_eq_true_iff]
  rintro ⟨q, hq, hlow, hhigh⟩
  obtain ⟨r, hr, hlow', hhigh'⟩ := inRanges_eq_true_iff.mp hc
  have hdisjoint := h r hr q hq
  omega

theorem isBlank_of_isLetter {c : Char} (h : isLetter c = true) : isBlank c = false := by
  unfold isLetter at h
  split at h
  · unfold Char.isAlpha Char.isUpper Char.isLower at h
    simp only [Bool.or_eq_true, Bool.and_eq_true, decide_eq_true_eq, ge_iff_le,
      UInt32.le_iff_toNat_le] at h
    have hrange : inRanges [(65, 90), (97, 122)] c = true := by
      rw [inRanges_eq_true_iff]
      simpa using h
    exact inRanges_eq_false_of_disjoint (by decide) hrange
  · exact inRanges_eq_false_of_disjoint (by decide +kernel) h

theorem isBlank_of_isDigit {c : Char} (h : c.isDigit = true) : isBlank c = false := by
  simp only [Char.isDigit, Bool.and_eq_true, decide_eq_true_eq, ge_iff_le,
      UInt32.le_iff_toNat_le] at h
  have hrange : inRanges [(48, 57)] c = true := by
    rw [inRanges_eq_true_iff]
    simpa using h
  exact inRanges_eq_false_of_disjoint (by decide) hrange

end Text

theorem IsNumber.isBlank_eq_false {text : List Char} (h : IsNumber text) :
    ∀ c ∈ text, Text.isBlank c = false := by
  cases h with
  | whole _ hall => exact fun c hc => Text.isBlank_of_isDigit (hall c hc)
  | decimal _ hall _ hfall =>
    rw [List.forall_mem_append, List.forall_mem_cons]
    exact ⟨fun c hc => Text.isBlank_of_isDigit (hall c hc), by decide,
      fun c hc => Text.isBlank_of_isDigit (hfall c hc)⟩

theorem IsWord.isBlank_eq_false {text : List Char} (h : IsWord text) :
    ∀ c ∈ text, Text.isBlank c = false := by
  cases h with
  | intro hc hcs =>
    refine List.forall_mem_cons.mpr ⟨?_, fun d hd => ?_⟩
    · rcases hc with hc | rfl
      · exact Text.isBlank_of_isLetter hc
      · decide
    · rcases hcs d hd with hd | rfl | hd
      · exact Text.isBlank_of_isLetter hd
      · decide
      · exact Text.isBlank_of_isDigit hd

/-- There are no blanks in a lexeme. -/
theorem Lexeme.isBlank_eq_false {kind : Kind} {text : List Char} (h : Lexeme kind text) :
    ∀ c ∈ text, Text.isBlank c = false := by
  have hoperators : ∀ entry ∈ operatorTable, entry.1.any Text.isBlank = false := by decide
  cases h with
  | operator h => simpa using hoperators _ h
  | number h => exact h.isBlank_eq_false
  | keyword hword | identifier hword => exact hword.isBlank_eq_false

theorem Lexeme.not_mem_of_isBlank {kind : Kind} {text : List Char} (h : Lexeme kind text) {c : Char}
    (hc : Text.isBlank c = true) : c ∉ text := by
  intro hmem
  rw [h.isBlank_eq_false c hmem] at hc
  cases hc

end LoxLang
