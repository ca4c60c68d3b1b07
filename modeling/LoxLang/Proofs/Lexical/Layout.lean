import LoxLang.Proofs.Lexical.Join

/-! # Layout

Tokens may be written with white space and comments around them. A layout says what is written: some
trivia, and then tokens with gaps behind them, of which the last may be missing. The text of a
layout is cut into the segments of its parts (`Layout.cut`), since no token reaches into white space
behind it (`Spells.prescribes`). So scanning the text gives the tokens of the layout, and no errors.
All tokens of all sources can be written in this way; in particular, the tokens of a source can be
written with single spaces between them (`scan_undoes_writing`). -/

namespace LoxLang

/-! ## Layouts -/

/-- The text is that of a token of this kind. -/
inductive Spells : Kind → List Char → Prop
  | lexeme {kind : Kind} {text : List Char} : Lexeme kind text → Spells kind text
  | string {body : List Char} : '"' ∉ body → Spells .string ('"' :: (body ++ ['"']))

/-- A token as it is written: an operator, number or word, or a text between quotes. -/
structure Spelling where
  kind : Kind
  text : List Char
  spells : Spells kind text

namespace Spelling

def segment (w : Spelling) : Segment := ⟨.token w.kind, w.text⟩

end Spelling

/-- The white space that scanning skips. -/
def whiteSpace : List Char := [' ', '\t', '\r', '\n']

/-- A piece of text without tokens: white space, a line comment with its line end, or a block
comment with its closing mark. -/
inductive Trivia where
  | white (c : Char) (mem : c ∈ whiteSpace)
  | lineComment (body : List Char) (oneLine : '\n' ∉ body)
  | blockComment (body : List Char) (noMark : ¬['*', '/'] <:+: body ++ ['*'])

namespace Trivia

def text : Trivia → List Char
  | white c _ => [c]
  | lineComment body _ => '/' :: '/' :: (body ++ ['\n'])
  | blockComment body _ => '/' :: '*' :: (body ++ ['*', '/'])

def segments : Trivia → List Segment
  | white c _ => [⟨if c = '\n' then .newline else .blank, [c]⟩]
  | lineComment body _ => [⟨.lineComment, '/' :: '/' :: body⟩, ⟨.newline, ['\n']⟩]
  | blockComment body _ => [⟨.blockComment, '/' :: '*' :: (body ++ ['*', '/'])⟩]

end Trivia

/-- What stands behind a token: white space, and then any trivia. -/
structure Gap where
  white : Char
  mem : white ∈ whiteSpace
  more : List Trivia

namespace Gap

def text (g : Gap) : List Char := g.white :: g.more.flatMap Trivia.text

def trivia (g : Gap) : List Trivia := .white g.white g.mem :: g.more

theorem text_eq (g : Gap) : g.text = g.trivia.flatMap Trivia.text :=
  rfl

/-- The gap that is a single space. -/
def space : Gap := ⟨' ', by decide, []⟩

end Gap

/-- Tokens and the trivia around them. -/
structure Layout where
  front : List Trivia
  /-- The tokens that have a gap behind them. -/
  spaced : List (Spelling × Gap)
  /-- The token that ends the text, if one does. -/
  last : Option Spelling

namespace Layout

def text (l : Layout) : List Char :=
  l.front.flatMap Trivia.text ++
    (l.spaced.flatMap (fun (w, g) => w.text ++ g.text) ++ l.last.toList.flatMap Spelling.text)

/-- The tokens in order. -/
def spellings (l : Layout) : List Spelling := l.spaced.map Prod.fst ++ l.last.toList

def segments (l : Layout) : List Segment :=
  l.front.flatMap Trivia.segments ++
    (l.spaced.flatMap (fun (w, g) => w.segment :: g.trivia.flatMap Trivia.segments) ++
      l.last.toList.map Spelling.segment)

end Layout

/-! ## The segments of a layout -/

theorem LexemeView.ne_nil {kind : Kind} {text : List Char} (h : LexemeView kind text) :
    text ≠ [] := by
  cases h <;> exact List.cons_ne_nil _ _

/-- No comment begins with a lexeme that has a blank behind it. -/
theorem Lexeme.not_comment {kind : Kind} {text rest : List Char} (h : Lexeme kind text)
    (hrest : ∀ c ∈ rest.head?, Text.isBlank c = true) {mark : Char}
    (hmark : Text.isBlank mark = false) : ¬['/', mark] <+: text ++ rest := by
  intro hpre
  have hview := h.view
  cases text with
  | nil => exact hview.ne_nil rfl
  | cons c cs =>
    obtain ⟨rfl, hnext⟩ := List.cons_prefix_cons.mp hpre
    obtain rfl := hview.eq_nil_of_slash
    obtain ⟨more, rfl⟩ : ∃ more, mark :: more = rest := hnext
    rw [hrest mark rfl] at hmark
    cases hmark

/-- A token that has a blank behind it, or nothing, is the segment prescribed. -/
theorem Spells.prescribes {kind : Kind} {text rest : List Char} (h : Spells kind text)
    (hrest : ∀ c ∈ rest.head?, Text.isBlank c = true) :
    Prescribes (text ++ rest) ⟨.token kind, text⟩ rest := by
  cases h with
  | lexeme h =>
    have hself : Longest text text := fun _ _ _ hpre => hpre.length_le
    have hlongest : Longest text (text ++ rest) := by
      cases rest with
      | nil => rwa [List.append_nil]
      | cons c more => exact hself.append_blank (hrest c rfl) more
    exact .lexeme h (h.not_comment hrest (by decide)) (h.not_comment hrest (by decide)) hlongest
  | @string body hbody =>
    rw [List.cons_append, List.append_assoc]
    exact .string hbody

namespace Trivia

theorem cut (t : Trivia) {rest : List Char} {ss : List Segment} (h : Cut rest ss) :
    Cut (t.text ++ rest) (t.segments ++ ss) := by
  cases t with
  | white c hc =>
    simp only [whiteSpace, List.mem_cons, List.not_mem_nil, or_false] at hc
    rcases hc with rfl | rfl | rfl | rfl
    · exact .cons (.blank (by decide)) h
    · exact .cons (.blank (by decide)) h
    · exact .cons (.blank (by decide)) h
    · exact .cons .newline h
  | lineComment body hbody =>
    rw [text, List.cons_append, List.cons_append, List.append_assoc]
    exact .cons (.lineComment hbody (.inr rfl)) (.cons .newline h)
  | blockComment body hbody =>
    rw [text, List.cons_append, List.cons_append, List.append_assoc]
    exact .cons (.blockComment hbody) h

theorem cutAll (ts : List Trivia) {rest : List Char} {ss : List Segment} (h : Cut rest ss) :
    Cut (ts.flatMap text ++ rest) (ts.flatMap segments ++ ss) := by
  induction ts with
  | nil => exact h
  | cons t ts ih =>
    rw [List.flatMap_cons, List.flatMap_cons, List.append_assoc, List.append_assoc]
    exact t.cut ih

end Trivia

namespace Layout

theorem cut_spaced (spaced : List (Spelling × Gap)) {rest : List Char} {ss : List Segment}
    (h : Cut rest ss) :
    Cut (spaced.flatMap (fun (w, g) => w.text ++ g.text) ++ rest)
      (spaced.flatMap (fun (w, g) => w.segment :: g.trivia.flatMap Trivia.segments) ++ ss) := by
  have hblank : ∀ c ∈ whiteSpace, Text.isBlank c = true := List.all_eq_true.mp (by decide)
  induction spaced with
  | nil => exact h
  | cons item spaced ih =>
    obtain ⟨w, g⟩ := item
    have hgap := Trivia.cutAll g.trivia ih
    rw [← g.text_eq] at hgap
    simp only [List.flatMap_cons, List.append_assoc, List.cons_append]
    refine .cons (w.spells.prescribes ?_) hgap
    rintro c ⟨⟩
    exact hblank _ g.mem

/-- The text of a layout is cut into the segments of its parts. -/
theorem cut (l : Layout) : Cut l.text l.segments := by
  refine Trivia.cutAll l.front (cut_spaced l.spaced ?_)
  cases l.last with
  | none => exact .nil
  | some w =>
    exact .cons (w.spells.prescribes nofun) .nil

end Layout

/-! ## Tokens -/

/-- Nothing is wrong with the segments, and these are their tokens. -/
structure Presents (ss : List Segment) (ws : List Spelling) : Prop where
  tokens : ss.filter Segment.isToken = ws.map Spelling.segment
  complaints : ss.filterMap Segment.complaint? = []

namespace Presents

theorem nil : Presents [] [] :=
  ⟨rfl, rfl⟩

theorem append {ss ss' : List Segment} {ws ws' : List Spelling} (h : Presents ss ws)
    (h' : Presents ss' ws') : Presents (ss ++ ss') (ws ++ ws') where
  tokens := by rw [List.filter_append, h.tokens, h'.tokens, List.map_append]
  complaints := by rw [List.filterMap_append, h.complaints, h'.complaints, List.nil_append]

theorem spelling (w : Spelling) : Presents [w.segment] [w] :=
  ⟨rfl, rfl⟩

theorem trivia (t : Trivia) : Presents t.segments [] := by
  cases t with
  | white c _ =>
    rw [Trivia.segments]
    split <;> exact ⟨rfl, rfl⟩
  | lineComment | blockComment => exact ⟨rfl, rfl⟩

theorem triviaAll (ts : List Trivia) : Presents (ts.flatMap Trivia.segments) [] := by
  induction ts with
  | nil => exact nil
  | cons t ts ih => exact (trivia t).append ih

theorem spaced (items : List (Spelling × Gap)) :
    Presents (items.flatMap fun (w, g) => w.segment :: g.trivia.flatMap Trivia.segments)
      (items.map Prod.fst) := by
  induction items with
  | nil => exact nil
  | cons item items ih =>
    exact ((spelling item.1).append (triviaAll item.2.trivia)).append ih

theorem layout (l : Layout) : Presents l.segments l.spellings := by
  have hlast : Presents (l.last.toList.map Spelling.segment) l.last.toList := by
    cases l.last with
    | none => exact nil
    | some w => exact spelling w
  exact (triviaAll l.front).append ((spaced l.spaced).append hlast)

end Presents

/-- A text that is cut into such segments has the tokens and no errors. -/
theorem Presents.scan {source : String} {ss : List Segment} {ws : List Spelling}
    (h : Presents ss ws) (hcut : Cut source.toList ss) :
    (scan source).errors = [] ∧
      ∃ tokens last, (scan source).tokens = tokens ++ [Token.endAt last] ∧
        List.Forall₂ IsTokenOf (ws.map Spelling.segment) tokens := by
  obtain rfl := hcut.eq_split
  have hmessages := Segment.map_message_errors 1 (Segment.split source.toList)
  rw [h.complaints, List.map_eq_nil_iff] at hmessages
  obtain ⟨tokens, last, htokens, hall, -⟩ := Segment.tokens_eq 1 fun s hs line t ht => by
    obtain ⟨input, rest, hprescribes⟩ := hcut.exists_prescribes hs
    exact hprescribes.isTokenOf ht
  rw [h.tokens] at hall
  exact ⟨hmessages, tokens, last, htokens, hall⟩

/-! ## Tokens up to lines -/

/-- The tokens of a text without the end mark, all on the first line. -/
def tokensOf (text : List Char) : List Token :=
  ((Segment.split text).filter Segment.isToken).filterMap (Segment.token? 1)

theorem Segment.map_unlined_tokens (line : Int) (ss : List Segment) :
    (tokens line ss).map Token.unlined =
      (ss.filter isToken).filterMap (token? 1) ++ [Token.endAt 1] := by
  induction ss generalizing line with
  | nil => rfl
  | cons s ss ih =>
    rw [tokens, List.map_append, ih]
    obtain ⟨cls, text⟩ := s
    cases cls <;> rfl

theorem map_unlined_scan (source : String) :
    (scan source).tokens.map Token.unlined = tokensOf source.toList ++ [Token.endAt 1] :=
  Segment.map_unlined_tokens 1 _

theorem Cut.tokensOf_eq {text : List Char} {ss : List Segment} (h : Cut text ss) :
    tokensOf text = (ss.filter Segment.isToken).filterMap (Segment.token? 1) := by
  rw [tokensOf, h.eq_split]

/-- The first segment of a text comes first as a token, too, if it is one. -/
theorem Prescribes.tokensOf_eq {input rest : List Char} {s : Segment}
    (h : Prescribes input s rest) : tokensOf input = (s.token? 1).toList ++ tokensOf rest := by
  rw [(Cut.cons h (cut_split rest)).tokensOf_eq]
  obtain ⟨cls, text⟩ := s
  cases cls <;> rfl

/-! ## Tokens with single spaces between them -/

theorem Prescribes.exists_spelling {input rest : List Char} {s : Segment}
    (h : Prescribes input s rest) (hs : s.isToken = true) : ∃ w : Spelling, w.segment = s := by
  cases h with
  | lexeme h => exact ⟨⟨_, _, .lexeme h⟩, rfl⟩
  | string h => exact ⟨⟨_, _, .string h⟩, rfl⟩
  | lineComment | blockComment | openComment | openString | blank | newline | unexpected => cases hs

/-- The tokens of every text can be written. -/
theorem Cut.exists_spellings {input : List Char} {ss : List Segment} (h : Cut input ss) :
    ∃ ws : List Spelling, ss.filter Segment.isToken = ws.map Spelling.segment := by
  induction h with
  | nil => exact ⟨[], rfl⟩
  | @cons input rest s ss hs hcut ih =>
    obtain ⟨ws, hws⟩ := ih
    by_cases htoken : s.isToken = true
    · obtain ⟨w, rfl⟩ := hs.exists_spelling htoken
      exact ⟨w :: ws, by rw [List.filter_cons_of_pos htoken, hws, List.map_cons]⟩
    · exact ⟨ws, by rw [List.filter_cons_of_neg htoken, hws]⟩

def Spelling.lexeme (w : Spelling) : String := String.ofList w.text

namespace Layout

/-- The layout in which a single space stands behind each token but the last one. -/
def withSpaces (ws : List Spelling) (last : Option Spelling) : Layout :=
  ⟨[], ws.map fun w => (w, Gap.space), last⟩

theorem spellings_withSpaces (ws : List Spelling) (last : Option Spelling) :
    (withSpaces ws last).spellings = ws ++ last.toList := by
  simp [spellings, withSpaces, Function.comp_def]

theorem text_withSpaces (ws : List Spelling) (last : Option Spelling) :
    String.ofList (withSpaces ws last).text =
      String.intercalate " " (ws.map Spelling.lexeme ++ [last.elim "" Spelling.lexeme]) := by
  induction ws with
  | nil =>
    cases last with
    | none => rfl
    | some w => simp [text, withSpaces, Spelling.lexeme]
  | cons w ws ih =>
    have htext : (withSpaces (w :: ws) last).text = w.text ++ ' ' :: (withSpaces ws last).text := by
      simp [text, withSpaces, Gap.text, Gap.space]
    rw [List.map_cons, List.cons_append, String.intercalate_cons_of_ne_nil (by simp), ← ih, htext,
      ← String.toList_inj]
    simp [Spelling.lexeme]

end Layout

/-- The lexemes of a source are those of its spellings, and an empty one at the end. -/
theorem map_lexeme_scan {source : String} {ws : List Spelling}
    (h : (Segment.split source.toList).filter Segment.isToken = ws.map Spelling.segment) :
    (scan source).tokens.map Token.lexeme = ws.map Spelling.lexeme ++ [""] := by
  have hlexemes := congrArg (List.map Token.lexeme) (map_unlined_scan source)
  rw [tokensOf, h, List.map_map, List.map_append, List.filterMap_map,
    List.map_filterMap] at hlexemes
  refine hlexemes.trans (congrArg (· ++ [""]) ?_)
  exact congrFun (List.filterMap_eq_map (f := Spelling.lexeme)) ws

/-- Scanning the text of a layout gives its tokens, each with its kind, its lexeme and its literal,
and one end mark behind them, and no errors. So the lexemes of a source, with single spaces between
them, are scanned as the same tokens, up to lines, and without errors; it does not matter whether
the empty lexeme of the end mark is one of them. -/
theorem scan_undoes_writing :
    (∀ l : Layout,
      (scan (String.ofList l.text)).errors = [] ∧
      ∃ tokens last, (scan (String.ofList l.text)).tokens = tokens ++ [Token.endAt last] ∧
        List.Forall₂ IsTokenOf (l.spellings.map Spelling.segment) tokens) ∧
    ∀ source : String, ∀ lexemes ∈ [(scan source).tokens.map Token.lexeme,
        (scan source).tokens.dropLast.map Token.lexeme],
      (scan (String.intercalate " " lexemes)).errors = [] ∧
      (scan (String.intercalate " " lexemes)).tokens.map Token.unlined =
        (scan source).tokens.map Token.unlined := by
  have hcut (l : Layout) : Cut (String.ofList l.text).toList l.segments := by
    rw [String.toList_ofList]
    exact l.cut
  refine ⟨fun l => (Presents.layout l).scan (hcut l), fun source => ?_⟩
  obtain ⟨ws, hws⟩ := (cut_split source.toList).exists_spellings
  have hrescan : ∀ front last, front ++ Option.toList last = ws →
      let joined := String.intercalate " "
        (front.map Spelling.lexeme ++ [last.elim "" Spelling.lexeme])
      (scan joined).errors = [] ∧
        (scan joined).tokens.map Token.unlined = (scan source).tokens.map Token.unlined := by
    intro front last hfront
    dsimp only
    rw [← Layout.text_withSpaces]
    refine ⟨((Presents.layout _).scan (hcut _)).1, ?_⟩
    rw [map_unlined_scan, map_unlined_scan, (hcut _).tokensOf_eq, (Presents.layout _).tokens,
      Layout.spellings_withSpaces, hfront, tokensOf, hws]
  rw [List.map_dropLast, map_lexeme_scan hws, List.dropLast_concat, List.forall_mem_cons,
    List.forall_mem_singleton]
  refine ⟨hrescan ws none (List.append_nil ws), ?_⟩
  rcases List.eq_nil_or_concat' ws with rfl | ⟨front, w, rfl⟩
  · exact hrescan [] none rfl
  · rw [List.map_append]
    exact hrescan front (some w) rfl

end LoxLang
