import LoxLang.Number.Read

/-! # Reading decimal numbers

A number without a sign is read in two steps: the text gives a decimal number exactly
(`Decimal.read?`), and only then the nearest double is taken (`Number.readMagnitude?_eq`). A text
that begins with a digit is made of whole digits, digits behind a point and an exponent, and
`Decimal.Writes` tells which number they write. -/

namespace LoxLang

open Number (digitsValue readExponent?)

/-- Splits digits behind a point off. -/
def Decimal.splitFraction : List Char → List Char × List Char
  | '.' :: rest => (rest.takeWhile Char.isDigit, rest.dropWhile Char.isDigit)
  | rest => ([], rest)

/-- The decimal number that a text without a sign means. -/
def Decimal.read? (cs : List Char) : Option Decimal :=
  let whole := cs.takeWhile Char.isDigit
  let (fraction, tail) := splitFraction (cs.dropWhile Char.isDigit)
  if whole.isEmpty && fraction.isEmpty then none
  else (readExponent? tail).map fun e =>
    ⟨digitsValue (whole ++ fraction), e - fraction.length⟩

theorem Decimal.splitFraction_point (rest : List Char) :
    splitFraction ('.' :: rest) = (rest.takeWhile Char.isDigit, rest.dropWhile Char.isDigit) :=
  rfl

theorem Decimal.splitFraction_of_ne {cs : List Char} (h : ∀ rest, cs ≠ '.' :: rest) :
    splitFraction cs = ([], cs) := by
  unfold splitFraction
  split
  · next rest => exact absurd rfl (h rest)
  · rfl

theorem Number.readMagnitude?_eq (cs : List Char) :
    readMagnitude? cs = (Decimal.read? cs).map fun d => scaled d.coefficient d.exponent := by
  unfold readMagnitude? Decimal.read?
  generalize cs.dropWhile Char.isDigit = tail
  dsimp only
  split
  · rw [Decimal.splitFraction_point, apply_ite (Option.map _), Option.map_map]
    rfl
  · next hpoint =>
    rw [Decimal.splitFraction_of_ne hpoint, apply_ite (Option.map _), Option.map_map]
    rfl

/-- An exponent has its mark in front, and then digits, possibly behind a sign. -/
theorem Number.readExponent?_cases {cs : List Char} {e : Int} (h : readExponent? cs = some e) :
    cs = [] ∨ ∃ mark rest, cs = mark :: rest ∧ (mark = 'e' ∨ mark = 'E') ∧
      ∀ c ∈ (splitSign rest).2, c.isDigit = true := by
  cases cs with
  | nil => exact .inl rfl
  | cons mark rest =>
    unfold readExponent? at h
    dsimp only at h
    split at h
    · next hmark =>
      simp only [Bool.and_eq_true, Bool.or_eq_true, decide_eq_true_eq, List.all_eq_true] at hmark
      exact .inr ⟨mark, rest, rfl, hmark.1.1, hmark.2⟩
    · cases h

theorem Number.mem_splitSign {cs : List Char} {c : Char} (h : c ∈ cs) :
    c ∈ (splitSign cs).2 ∨ c ∈ ['+', '-'] := by
  unfold splitSign
  split
  · rcases List.mem_cons.mp h with rfl | h
    · exact .inr (by decide)
    · exact .inl h
  · rcases List.mem_cons.mp h with rfl | h
    · exact .inr (by decide)
    · exact .inl h
  · exact .inl h

/-- The characters that written numbers are made of, beside digits. -/
def numberMarks : List Char := ['.', 'e', 'E', '+', '-']

theorem Number.mem_of_readExponent? {cs : List Char} {e : Int} (h : readExponent? cs = some e) :
    ∀ c ∈ cs, c.isDigit = true ∨ c ∈ numberMarks := by
  obtain rfl | ⟨mark, rest, rfl, hmark, hdigits⟩ := readExponent?_cases h
  · nofun
  · refine List.forall_mem_cons.mpr ⟨.inr ?_, fun c hc => ?_⟩
    · rcases hmark with rfl | rfl <;> decide
    · rcases mem_splitSign hc with hc | hc
      · exact .inl (hdigits c hc)
      · exact .inr ((by decide : ['+', '-'] ⊆ numberMarks) hc)

theorem takeWhile_dropWhile_isDigit {ds rest : List Char} (hds : ∀ d ∈ ds, d.isDigit = true)
    (hrest : ∀ c ∈ rest.head?, c.isDigit = false) :
    (ds ++ rest).takeWhile Char.isDigit = ds ∧ (ds ++ rest).dropWhile Char.isDigit = rest := by
  have hstop : rest.takeWhile Char.isDigit = [] ∧ rest.dropWhile Char.isDigit = rest := by
    cases rest with
    | nil => exact ⟨rfl, rfl⟩
    | cons c rest =>
      have hc : c.isDigit = false := hrest c rfl
      simp [hc]
  rw [List.takeWhile_append_of_pos hds, List.dropWhile_append_of_pos hds, hstop.1, hstop.2,
    List.append_nil]
  exact ⟨rfl, rfl⟩

/-- The text writes the decimal number: digits, possibly a point and digits behind it, and possibly
an exponent. -/
inductive Decimal.Writes : List Char → Decimal → Prop
  | intro {whole fraction point tail : List Char} {e : Int} : whole ≠ [] →
    (∀ d ∈ whole, d.isDigit = true) → (∀ d ∈ fraction, d.isDigit = true) →
    (point = '.' :: fraction ∨ point = [] ∧ fraction = []) → readExponent? tail = some e →
    Writes (whole ++ (point ++ tail)) ⟨digitsValue (whole ++ fraction), e - fraction.length⟩

namespace Decimal.Writes

variable {cs : List Char} {d : Decimal}

theorem read?_eq (h : Writes cs d) : read? cs = some d := by
  cases h with
  | @intro whole fraction point tail e hne hwhole hfraction hpoint htail =>
    have hempty : whole.isEmpty = false := by simpa using hne
    have hmark : ∀ c ∈ tail.head?, c.isDigit = false ∧ c ≠ '.' := by
      intro c hc
      obtain rfl | ⟨mark, rest, rfl, hmark, -⟩ := Number.readExponent?_cases htail
      · cases hc
      · cases hc
        rcases hmark with rfl | rfl <;> decide
    have hrest : ∀ c ∈ (point ++ tail).head?, c.isDigit = false := by
      rcases hpoint with rfl | ⟨rfl, rfl⟩
      · rintro _ ⟨⟩
        rfl
      · exact fun c hc => (hmark c hc).1
    have hsplit : splitFraction (point ++ tail) = (fraction, tail) := by
      rcases hpoint with rfl | ⟨rfl, rfl⟩
      · obtain ⟨htake, hdrop⟩ :=
          takeWhile_dropWhile_isDigit hfraction fun c hc => (hmark c hc).1
        rw [List.cons_append, splitFraction_point, htake, hdrop]
      · refine splitFraction_of_ne fun rest htail => ?_
        rw [List.nil_append] at htail
        exact (hmark '.' (by rw [htail]; rfl)).2 rfl
    obtain ⟨htake, hdrop⟩ := takeWhile_dropWhile_isDigit hwhole hrest
    simp [read?, htake, hdrop, hsplit, hempty, htail]

theorem exists_head (h : Writes cs d) : ∃ c rest, cs = c :: rest ∧ c.isDigit = true := by
  cases h with
  | @intro whole _ _ _ _ hne hwhole =>
    cases whole with
    | nil => exact absurd rfl hne
    | cons c whole => exact ⟨c, _, rfl, hwhole c List.mem_cons_self⟩

theorem mem_cases (h : Writes cs d) : ∀ c ∈ cs, c.isDigit = true ∨ c ∈ numberMarks := by
  cases h with
  | intro hne hwhole hfraction hpoint htail =>
    refine List.forall_mem_append.mpr ⟨fun c hc => .inl (hwhole c hc), ?_⟩
    refine List.forall_mem_append.mpr ⟨?_, Number.mem_of_readExponent? htail⟩
    rcases hpoint with rfl | ⟨rfl, -⟩
    · exact List.forall_mem_cons.mpr ⟨.inr (by decide), fun c hc => .inl (hfraction c hc)⟩
    · nofun

end Decimal.Writes

end LoxLang
