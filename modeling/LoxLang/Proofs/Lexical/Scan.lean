import LoxLang.Proofs.Lexical.Segments
import LoxLang.Proofs.Number.Read
import LoxLang.Token.Scan
import Mathlib.Data.List.Forall2

/-! # Scanning follows the lexical grammar

The tokens of a source text are the token segments of the only cut of the text, each with the kind,
lexeme and literal of its segment, and one end mark behind them; and there is one error for each
segment that is wrong (`scan_follows_lexical_grammar`). -/

namespace LoxLang

/-! ## Cuts -/

theorem Prescribes.text_append {input rest : List Char} {s : Segment}
    (h : Prescribes input s rest) : s.text ++ rest = input := by
  obtain ⟨c, cs, rfl, hnext⟩ := h.next_eq
  have happend := Segment.next_append c cs
  rwa [hnext] at happend

theorem cut_split (cs : List Char) : Cut cs (Segment.split cs) := by
  fun_induction Segment.split cs with
  | case1 => exact .nil
  | case2 c cs ih => exact .cons (Segment.prescribes_next c cs) ih

theorem Cut.eq_split {cs : List Char} {ss : List Segment} (h : Cut cs ss) :
    ss = Segment.split cs := by
  induction h with
  | nil => rw [Segment.split]
  | cons hs _ ih =>
    obtain ⟨c, cs, rfl, hnext⟩ := hs.next_eq
    rw [Segment.split, hnext, ih]

/-- A text has one cut. -/
theorem cut_iff {cs : List Char} {ss : List Segment} : Cut cs ss ↔ ss = Segment.split cs :=
  ⟨Cut.eq_split, fun h => h ▸ cut_split cs⟩

theorem Cut.exists_prescribes {cs : List Char} {ss : List Segment} (h : Cut cs ss) {s : Segment}
    (hs : s ∈ ss) : ∃ input rest, Prescribes input s rest := by
  induction h with
  | nil => cases hs
  | cons h _ ih =>
    cases hs with
    | head => exact ⟨_, _, h⟩
    | tail _ hs => exact ih hs

/-! ## Literals -/

/-- The literal of a token: a number is what its lexeme reads as, a string is what stands between
its quotes, and other tokens have none. -/
inductive LiteralOf : Kind → List Char → Value → Prop
  | number {text : List Char} {x : Number} :
    Number.read? (String.ofList text) = some x → LiteralOf .number text (.number x)
  | string {body : List Char} :
    LiteralOf .string ('"' :: (body ++ ['"'])) (.string (String.ofList body))
  | other {kind : Kind} {text : List Char} :
    kind ≠ .number → kind ≠ .string → LiteralOf kind text .nil

theorem Number.splitSign_of_isDigit {c : Char} (hc : c.isDigit = true) (cs : List Char) :
    splitSign (c :: cs) = (false, c :: cs) := by
  unfold splitSign
  split
  · next h => cases h; cases hc
  · next h => cases h; cases hc
  · rfl

theorem Number.read?_of_isDigit {c : Char} (hc : c.isDigit = true) (cs : List Char) :
    read? (String.ofList (c :: cs)) = readMagnitude? (c :: cs) := by
  have hname {d : Char} (ds : List Char) (hd : d.isDigit = false) : c :: cs ≠ d :: ds := by
    intro h
    cases h
    rw [hd] at hc
    cases hc
  unfold read?
  rw [String.toList_ofList, splitSign_of_isDigit hc]
  simp only [hname ['n', 'f'] (by decide : 'i'.isDigit = false),
    hname ['a', 'n'] (by decide : 'n'.isDigit = false), if_false, Bool.false_eq_true]
  exact Option.map_id'

theorem Number.readMagnitude?_digits {ds fs : List Char} (hds : ds ≠ [])
    (hall : ∀ d ∈ ds, d.isDigit = true) (hfs : ∀ d ∈ fs, d.isDigit = true) {tail : List Char}
    (htail : tail = '.' :: fs ∨ tail = [] ∧ fs = []) :
    readMagnitude? (ds ++ tail) = some (ofDigits ds fs) := by
  have hread := (Decimal.Writes.intro hds hall hfs htail (rfl : readExponent? [] = some 0)).read?_eq
  rw [List.append_nil] at hread
  rw [readMagnitude?_eq, hread, Option.map_some, ofDigits, Int.zero_sub]

theorem point_not_mem_of_digits {ds : List Char} (h : ∀ d ∈ ds, d.isDigit = true) : '.' ∉ ds := by
  intro hmem
  cases h '.' hmem

theorem Segment.numberValue_digits {ds fs tail : List Char} (hall : ∀ d ∈ ds, d.isDigit = true)
    (htail : tail = '.' :: fs ∨ tail = [] ∧ fs = []) :
    numberValue (ds ++ tail) = .ofDigits ds fs := by
  have hhead : tail = [] ∨ tail.head? = some '.' := by
    rcases htail with rfl | ⟨rfl, -⟩
    · exact .inr rfl
    · exact .inl rfl
  obtain ⟨htake, hdrop⟩ := takeWhile_bne_append (point_not_mem_of_digits hall) hhead
  rw [numberValue, htake, hdrop]
  rcases htail with rfl | ⟨rfl, rfl⟩ <;> rfl

/-- A number token has the value that its lexeme reads as. -/
theorem IsNumber.read?_eq {text : List Char} (h : IsNumber text) :
    Number.read? (String.ofList text) = some (Segment.numberValue text) := by
  obtain ⟨ds, fs, tail, rfl, hds, hall, hfs, htail⟩ : ∃ ds fs tail, text = ds ++ tail ∧ ds ≠ [] ∧
      (∀ d ∈ ds, d.isDigit = true) ∧ (∀ d ∈ fs, d.isDigit = true) ∧
      (tail = '.' :: fs ∨ tail = [] ∧ fs = []) := by
    cases h with
    | whole hds hall =>
      exact ⟨text, [], [], (List.append_nil _).symm, hds, hall, nofun, .inr ⟨rfl, rfl⟩⟩
    | decimal hds hall _ hfs => exact ⟨_, _, _, rfl, hds, hall, hfs, .inl rfl⟩
  rw [Segment.numberValue_digits hall htail, ← Number.readMagnitude?_digits hds hall hfs htail]
  cases ds with
  | nil => exact absurd rfl hds
  | cons d ds => exact Number.read?_of_isDigit (hall d (List.mem_cons_self ..)) _

theorem LexemeView.kind_cases {kind : Kind} {text : List Char} (h : LexemeView kind text) :
    kind ≠ .string ∧ kind ≠ .eof ∧ (kind = .number → IsNumber text) := by
  cases h with
  | single h =>
    unfold Segment.single? at h
    split at h <;> cases h <;> exact ⟨by decide, by decide, nofun⟩
  | short h | long h =>
    unfold Segment.extensible? at h
    split at h <;> cases h <;> exact ⟨by decide, by decide, nofun⟩
  | slash => exact ⟨by decide, by decide, nofun⟩
  | number _ h => exact ⟨by decide, by decide, fun _ => h⟩
  | @word c cs _ _ =>
    have hkinds : ∀ entry ∈ keywordTable,
        entry.2 ≠ .string ∧ entry.2 ≠ .eof ∧ entry.2 ≠ .number := by decide
    by_cases hkey : ∃ kind, (String.ofList (c :: cs), kind) ∈ keywordTable
    · obtain ⟨kind, hkey⟩ := hkey
      obtain ⟨hstring, heof, hnumber⟩ := hkinds _ hkey
      rw [Kind.ofWord_of_mem hkey]
      exact ⟨hstring, heof, fun h => absurd h hnumber⟩
    · rw [Kind.ofWord_of_not_mem fun kind hmem => hkey ⟨kind, hmem⟩]
      exact ⟨by decide, by decide, nofun⟩

/-! ## Tokens -/

namespace Segment

def isToken (s : Segment) : Bool :=
  match s.cls with
  | .token _ => true
  | _ => false

/-- What is said about a segment that is wrong. -/
def complaint? (s : Segment) : Option String :=
  match s.cls with
  | .unexpected => some "Unexpected character."
  | .openString => some "Unterminated string."
  | .openComment => some "Unterminated block comment."
  | _ => none

end Segment

/-- The token has the kind, the text and the literal of the segment. -/
structure IsTokenOf (s : Segment) (t : Token) : Prop where
  cls : s.cls = .token t.kind
  lexeme : t.lexeme = String.ofList s.text
  literal : LiteralOf t.kind s.text t.literal

theorem Segment.literal_string (body : List Char) :
    literal .string ('"' :: (body ++ ['"'])) = .string (String.ofList body) := by
  simp [literal]

theorem Prescribes.literalOf {input rest : List Char} {kind : Kind} {text : List Char}
    (h : Prescribes input ⟨.token kind, text⟩ rest) :
    LiteralOf kind text (Segment.literal kind text) ∧ kind ≠ .eof := by
  generalize hs : (⟨.token kind, text⟩ : Segment) = s at h
  cases h with
  | @string body =>
    cases hs
    rw [Segment.literal_string]
    exact ⟨.string, by decide⟩
  | lexeme h =>
    cases hs
    obtain ⟨hstring, heof, hnumber⟩ := h.view.kind_cases
    refine ⟨?_, heof⟩
    by_cases hkind : kind = .number
    · subst hkind
      exact .number (hnumber rfl).read?_eq
    · have hnil : Segment.literal kind text = .nil := by
        unfold Segment.literal
        split <;> first | rfl | contradiction
      rw [hnil]
      exact .other hkind hstring
  | lineComment | blockComment | openComment | openString | blank | newline | unexpected => cases hs

theorem Prescribes.isTokenOf {input rest : List Char} {s : Segment} (h : Prescribes input s rest)
    {line : Int} {t : Token} (ht : s.token? line = some t) : IsTokenOf s t ∧ t.kind ≠ .eof := by
  obtain ⟨cls, text⟩ := s
  unfold Segment.token? at ht
  split at ht
  · next kind hcls =>
    cases hcls
    cases ht
    obtain ⟨hliteral, hkind⟩ := h.literalOf
    exact ⟨⟨rfl, rfl, hliteral⟩, hkind⟩
  · cases ht

namespace Segment

theorem isSome_token? (line : Int) (s : Segment) : (s.token? line).isSome = s.isToken := by
  obtain ⟨cls, text⟩ := s
  cases cls <;> rfl

/-- A token of segments is an end mark, or it is the token of one of them. -/
theorem mem_tokens {line : Int} {ss : List Segment} {t : Token} (ht : t ∈ tokens line ss) :
    (∃ last, t = Token.endAt last) ∨ ∃ s ∈ ss, ∃ line, s.token? line = some t := by
  induction ss generalizing line with
  | nil => exact .inl ⟨line, List.mem_singleton.mp ht⟩
  | cons s ss ih =>
    rcases List.mem_append.mp ht with ht | ht
    · exact .inr ⟨s, .head _, line, by simpa using ht⟩
    · exact (ih ht).imp_right fun ⟨s', hs', h⟩ => ⟨s', .tail _ hs', h⟩

/-- The tokens of segments are those of the token segments, in order, and one end mark. -/
theorem tokens_eq {ss : List Segment} (line : Int)
    (h : ∀ s ∈ ss, ∀ line t, s.token? line = some t → IsTokenOf s t ∧ t.kind ≠ .eof) :
    ∃ ts last, tokens line ss = ts ++ [Token.endAt last] ∧
      List.Forall₂ IsTokenOf (ss.filter isToken) ts ∧ ∀ t ∈ ts, t.kind ≠ .eof := by
  induction ss generalizing line with
  | nil => exact ⟨[], line, rfl, .nil, List.forall_mem_nil _⟩
  | cons s ss ih =>
    obtain ⟨ts, last, hts, hall, heof⟩ :=
      ih (line + s.newlines) fun s hs => h s (List.mem_cons_of_mem _ hs)
    rw [tokens, hts]
    have hsome := isSome_token? line s
    cases ht : s.token? line with
    | none =>
      rw [ht] at hsome
      exact ⟨ts, last, rfl, by rwa [List.filter_cons_of_neg (by simp [← hsome])], heof⟩
    | some t =>
      rw [ht] at hsome
      obtain ⟨htoken, hkind⟩ := h s (List.mem_cons_self ..) line t ht
      refine ⟨t :: ts, last, rfl, ?_, ?_⟩
      · rw [List.filter_cons_of_pos hsome.symm]
        exact .cons htoken hall
      · intro u hu
        rcases List.mem_cons.mp hu with rfl | hu
        · exact hkind
        · exact heof u hu

theorem map_message_errors (line : Int) (ss : List Segment) :
    (errors line ss).map (fun e => e.cause.message) = ss.filterMap complaint? := by
  induction ss generalizing line with
  | nil => rfl
  | cons s ss ih =>
    have hmessage : (s.error? line).map (fun e => e.cause.message) = s.complaint? := by
      obtain ⟨cls, text⟩ := s
      cases cls <;> rfl
    rw [errors, List.map_append, ih, List.filterMap_cons, ← hmessage]
    cases s.error? line <;> rfl

end Segment

/-- Every source text has exactly one cut by the lexical grammar. Its segments are not empty and
cover the text; the tokens are the token segments in order, followed by the end mark; and the
errors are one for each segment that is wrong, in order. -/
theorem scan_follows_lexical_grammar (source : String) :
    ∃ segments : List Segment,
      (∀ ss, Cut source.toList ss ↔ ss = segments) ∧
      segments.flatMap Segment.text = source.toList ∧
      (∀ s ∈ segments, s.text ≠ []) ∧
      (∃ tokens last, (scan source).tokens = tokens ++ [last] ∧
        List.Forall₂ IsTokenOf (segments.filter Segment.isToken) tokens ∧
        (∀ t ∈ tokens, t.kind ≠ .eof) ∧
        last.kind = .eof ∧ last.lexeme = "" ∧ last.literal = .nil) ∧
      (scan source).errors.map (fun e => e.cause.message) =
        segments.filterMap Segment.complaint? := by
  refine ⟨Segment.split source.toList, fun ss => cut_iff, Segment.flatMap_text_split _,
    fun s hs => Segment.text_ne_nil_of_mem_split hs, ?_, Segment.map_message_errors 1 _⟩
  obtain ⟨tokens, last, htokens, hall, heof⟩ := Segment.tokens_eq 1 fun s hs line t ht => by
    obtain ⟨input, rest, hprescribes⟩ := (cut_split source.toList).exists_prescribes hs
    exact hprescribes.isTokenOf ht
  exact ⟨tokens, Token.endAt last, htokens, hall, heof, rfl, rfl, rfl⟩

end LoxLang
