import LoxLang.Proofs.Number.Binary
import LoxLang.Proofs.Number.Read

/-! # Numbers are shown apart

A decimal number is written such that its value can be read off exactly (`Decimal.text_writes`).
The rational numbers that read as a double lie around it (`ReadsAs`), and no number reads as two
doubles (`ReadsAs.unique`). The display of a number that is not negative writes a number that reads
as it, be it by its digits or by the shortest text (`Number.exists_display_writes`), and so
different ones have different displays (`Number.display_inj`). -/

namespace LoxLang

open Float.Model (UnpackedFloat)
open Number (digitsValue readExponent?)

/-! ## Digits -/

theorem digitsValue_append (ds es : List Char) :
    digitsValue (ds ++ es) = 10 ^ es.length * digitsValue ds + digitsValue es := by
  have happend := Nat.ofDigitChars_append (b := 10) (l := ds) (m := es) 0
  exact happend.trans Nat.ofDigitChars_eq_ofDigitChars_zero

/-- Zeros in front of digits do not count. -/
theorem digitsValue_zeros_append (n : Nat) (ds : List Char) :
    digitsValue (List.replicate n '0' ++ ds) = digitsValue ds := by
  have hzeros : digitsValue (List.replicate n '0') = 10 ^ n * 0 :=
    Nat.ofDigitChars_replicate_zero
  rw [digitsValue_append, hzeros, Nat.mul_zero, Nat.mul_zero, Nat.zero_add]

theorem digitsValue_append_zeros (ds : List Char) (n : Nat) :
    digitsValue (ds ++ List.replicate n '0') = 10 ^ n * digitsValue ds := by
  have hzeros : digitsValue (List.replicate n '0' ++ []) = digitsValue [] :=
    digitsValue_zeros_append n []
  rw [List.append_nil] at hzeros
  rw [digitsValue_append, hzeros, List.length_replicate]
  rfl

theorem digitsValue_toDigits (n : Nat) : digitsValue (Nat.toDigits 10 n) = n :=
  Nat.ofDigitChars_ten_toDigits

/-- Zeros at the end of digits can be moved to the exponent. -/
theorem cast_pow_mul_zpow (n k : Nat) (e : Int) :
    ((10 ^ k * n : Nat) : ℚ) * 10 ^ e = n * 10 ^ (e + k) := by
  rw [zpow_add₀ (by norm_num), zpow_natCast]
  push_cast
  ring

theorem isDigit_of_mem_toDigits {n : Nat} : ∀ c ∈ Nat.toDigits 10 n, c.isDigit = true :=
  fun _ hc => Nat.isDigit_of_mem_toDigits (by decide) (by decide) hc

theorem isDigit_of_mem_replicate_zero {n : Nat} : ∀ c ∈ List.replicate n '0', c.isDigit = true := by
  intro c hc
  rw [List.eq_of_mem_replicate hc]
  rfl

/-! ## Written decimal numbers -/

namespace Decimal

def value (d : Decimal) : ℚ := d.coefficient * 10 ^ d.exponent

/-- The text writes a decimal number that has this value. -/
def WritesValue (cs : List Char) (v : ℚ) : Prop := ∃ d, Writes cs d ∧ d.value = v

theorem WritesValue.unique {cs : List Char} {v v' : ℚ} (h : WritesValue cs v)
    (h' : WritesValue cs v') : v = v' := by
  obtain ⟨d, hd, rfl⟩ := h
  obtain ⟨d', hd', rfl⟩ := h'
  rw [Option.some.inj (hd.read?_eq.symm.trans hd'.read?_eq)]

theorem WritesValue.of_parts {whole fraction point tail : List Char} {e : Int} {v : ℚ}
    (hne : whole ≠ []) (hwhole : ∀ c ∈ whole, c.isDigit = true)
    (hfraction : ∀ c ∈ fraction, c.isDigit = true)
    (hpoint : point = '.' :: fraction ∨ point = [] ∧ fraction = [])
    (htail : readExponent? tail = some e)
    (hv : (digitsValue (whole ++ fraction) : ℚ) * 10 ^ (e - fraction.length) = v) :
    WritesValue (whole ++ (point ++ tail)) v :=
  ⟨_, Writes.intro hne hwhole hfraction hpoint htail, hv⟩

/-- Digits with a point among them. -/
theorem WritesValue.point {whole fraction : List Char} {v : ℚ}
    (hne : whole ≠ []) (hwhole : ∀ c ∈ whole, c.isDigit = true)
    (hfraction : ∀ c ∈ fraction, c.isDigit = true)
    (hv : (digitsValue (whole ++ fraction) : ℚ) * 10 ^ (-(fraction.length : Int)) = v) :
    WritesValue (whole ++ '.' :: fraction) v := by
  have h := of_parts hne hwhole hfraction (.inl rfl) (rfl : readExponent? [] = some 0)
    (Int.zero_sub _ ▸ hv)
  rwa [List.append_nil] at h

theorem exists_trimZeros_append (ds : List Char) :
    ∃ k, ds = trimZeros ds ++ List.replicate k '0' := by
  have hzeros : ∀ c ∈ (ds.reverse.takeWhile (· == '0')).reverse, c = '0' := by
    intro c hc
    simpa using List.all_eq_true.mp List.all_takeWhile c (List.mem_reverse.mp hc)
  have hsplit : ds = trimZeros ds ++ (ds.reverse.takeWhile (· == '0')).reverse := by
    rw [trimZeros, ← List.reverse_append, List.takeWhile_append_dropWhile, List.reverse_reverse]
  rw [List.eq_replicate_of_mem hzeros] at hsplit
  exact ⟨_, hsplit⟩

theorem splitSign_exponentText (width : Nat) (e : Int) :
    ∃ k, Number.splitSign (exponentText width e) =
      (decide (e < 0), List.replicate k '0' ++ Nat.toDigits 10 e.natAbs) := by
  unfold exponentText
  split
  · next h => exact ⟨_, by rw [decide_eq_true h]; rfl⟩
  · next h => exact ⟨_, by rw [decide_eq_false h]; rfl⟩

theorem readExponent?_exponentText (width : Nat) (e : Int) :
    readExponent? ('e' :: exponentText width e) = some e := by
  obtain ⟨k, hsplit⟩ := splitSign_exponentText width e
  have hne : (List.replicate k '0' ++ Nat.toDigits 10 e.natAbs).isEmpty = false := by
    simp [Nat.toDigits_ne_nil]
  have hall : (List.replicate k '0' ++ Nat.toDigits 10 e.natAbs).all Char.isDigit = true :=
    List.all_eq_true.mpr
      (List.forall_mem_append.mpr ⟨isDigit_of_mem_replicate_zero, isDigit_of_mem_toDigits⟩)
  simp only [readExponent?, hsplit, hne, hall, digitsValue_zeros_append, digitsValue_toDigits]
  rw [if_pos (by decide), Option.some.injEq]
  split
  · next h => have := of_decide_eq_true h; omega
  · next h => have := of_decide_eq_false (eq_false_of_ne_true h); omega

section

variable {digits : List Char} (hne : digits ≠ []) (hdigits : ∀ c ∈ digits, c.isDigit = true)

include hne hdigits

/-- The point stands behind the first `point` digits. -/
theorem positional_writes (point : Int) : WritesValue (positional digits point)
    (digitsValue digits * 10 ^ (point - digits.length)) := by
  unfold positional
  split
  · next hpoint =>
    have hfraction := List.forall_mem_append.mpr
      ⟨@isDigit_of_mem_replicate_zero point.natAbs, hdigits⟩
    have hvalue := digitsValue_zeros_append (point.natAbs + 1) digits
    rw [List.append_assoc, List.cons_append, List.singleton_append, ← List.singleton_append]
    refine .point (List.cons_ne_nil '0' []) (List.forall_mem_singleton.mpr rfl) hfraction ?_
    rw [List.singleton_append, ← List.cons_append, ← List.replicate_succ, hvalue,
      List.length_append, List.length_replicate]
    congr 2
    omega
  · next hpoint =>
    dsimp only
    split
    · next hlength =>
      have hwhole := List.forall_mem_append.mpr
        ⟨hdigits, @isDigit_of_mem_replicate_zero (point.toNat - digits.length)⟩
      have hvalue := digitsValue_append_zeros digits (point.toNat - digits.length + 1)
      rw [List.replicate_succ', ← List.append_assoc] at hvalue
      have hzero : ∀ c ∈ ['0'], c.isDigit = true := List.forall_mem_singleton.mpr rfl
      refine .point (fun h => hne (List.append_eq_nil_iff.mp h).1) hwhole hzero ?_
      rw [hvalue, cast_pow_mul_zpow, List.length_singleton]
      congr 2
      omega
    · next hlength =>
      have htake : ∀ c ∈ digits.take point.toNat, c.isDigit = true :=
        fun c hc => hdigits c (List.mem_of_mem_take hc)
      refine .point ?_ htake (fun c hc => hdigits c (List.mem_of_mem_drop hc)) ?_
      · rw [← List.length_pos_iff, List.length_take]
        omega
      · rw [List.take_append_drop, List.length_drop]
        congr 2
        omega

/-- The point stands behind the first digit. -/
theorem scientific_writes (width : Nat) (e : Int) : WritesValue (scientific width digits e)
    (digitsValue digits * 10 ^ (e + 1 - digits.length)) := by
  have htail := readExponent?_exponentText width e
  unfold scientific
  cases digits with
  | nil => exact absurd rfl hne
  | cons first rest =>
    obtain ⟨hfirst, hrest⟩ := List.forall_mem_cons.mp hdigits
    cases rest with
    | nil =>
      have h := WritesValue.of_parts hne hdigits hrest (.inr ⟨rfl, rfl⟩) htail rfl
      simpa using h
    | cons second rest =>
      have h := WritesValue.of_parts (List.cons_ne_nil first [])
        (List.forall_mem_singleton.mpr hfirst) hrest (.inl rfl) htail rfl
      simpa using h

end

theorem text_writes {d : Decimal} (h : 0 < d.coefficient) : WritesValue d.text d.value := by
  obtain ⟨k, hk⟩ := exists_trimZeros_append (Nat.toDigits 10 d.coefficient)
  have hall := @isDigit_of_mem_toDigits d.coefficient
  have hcoefficient := digitsValue_toDigits d.coefficient
  unfold text
  dsimp only
  generalize trimZeros (Nat.toDigits 10 d.coefficient) = digits at *
  rw [hk] at hall hcoefficient ⊢
  rw [digitsValue_append_zeros] at hcoefficient
  have hne : digits ≠ [] := by
    rintro rfl
    exact absurd hcoefficient h.ne
  have hvalue : d.value = digitsValue digits * 10 ^ (d.exponent + k) := by
    rw [value, ← hcoefficient, cast_pow_mul_zpow]
  have hexponent : d.exponent + k =
      d.exponent + (digits ++ List.replicate k '0').length - 1 + 1 - digits.length := by
    rw [List.length_append, List.length_replicate]
    omega
  rw [hvalue, hexponent]
  split
  · exact positional_writes hne (List.forall_mem_append.mp hall).1 _
  · exact scientific_writes hne (List.forall_mem_append.mp hall).1 _ _

end Decimal

/-! ## The numbers that read as a double -/

/-- A quarter of the last place of a mantissa, the unit of the span around a double. -/
def quarter (e : Int) : ℚ := 2 ^ (e - 2)

theorem quarter_pos (e : Int) : 0 < quarter e :=
  zpow_pos (by norm_num) _

/-- The lower end of the span. Below a power of two the next double is only half as far. -/
def lowQuarters (m : Nat) (e : Int) : Nat := 4 * m - if m = 2 ^ 52 ∧ -1074 < e then 1 else 2

def highQuarters (m : Nat) : Nat := 4 * m + 2

/-- The number reads as the double `m * 2 ^ e`. A tie goes to the even mantissa. -/
structure ReadsAs (m : Nat) (e : Int) (v : ℚ) : Prop where
  low_le : lowQuarters m e * quarter e ≤ v
  le_high : v ≤ highQuarters m * quarter e
  inside : m % 2 = 1 → lowQuarters m e * quarter e < v ∧ v < highQuarters m * quarter e

/-- The spans of two doubles have at most an end in common, and then not both of them hold it. -/
theorem Canonical.separated {m m' : Nat} {e e' : Int} (h : Canonical m e) (h' : Canonical m' e')
    (hlt : e < e' ∨ e = e' ∧ m < m') :
    highQuarters m * quarter e < lowQuarters m' e' * quarter e' ∨
      highQuarters m * quarter e = lowQuarters m' e' * quarter e' ∧ (m % 2 = 1 ∨ m' % 2 = 1) := by
  -- In the units of the lower double, the span of the upper one begins at `k` or above.
  obtain ⟨k, hk, hscale⟩ : ∃ k : Nat,
      (highQuarters m < k ∨ highQuarters m = k ∧ (m % 2 = 1 ∨ m' % 2 = 1)) ∧
        k * quarter e ≤ lowQuarters m' e' * quarter e' := by
    rcases hlt with hlt | ⟨rfl, hlt⟩
    · refine ⟨2 * lowQuarters m' e', ?_, ?_⟩
      · have hleast := h.exponent_ge
        have hlast := h.mantissa_lt
        have hfull := h'.full.resolve_right (by omega)
        unfold highQuarters lowQuarters
        split <;> omega
      · have hunits : 2 * quarter e ≤ quarter e' := by
          rw [quarter, quarter, mul_comm, ← zpow_add_one₀ (by norm_num)]
          exact zpow_le_zpow_right₀ (by norm_num) (by omega)
        calc ((2 * lowQuarters m' e' : Nat) : ℚ) * quarter e
            = lowQuarters m' e' * (2 * quarter e) := by push_cast; ring
          _ ≤ lowQuarters m' e' * quarter e' := mul_le_mul_of_nonneg_left hunits (by positivity)
    · refine ⟨lowQuarters m' e, ?_, le_refl _⟩
      unfold highQuarters lowQuarters
      split <;> omega
  rcases hk with hk | ⟨rfl, hodd⟩
  · have hcast : (highQuarters m : ℚ) < k := by exact_mod_cast hk
    exact .inl ((mul_lt_mul_of_pos_right hcast (quarter_pos e)).trans_le hscale)
  · exact hscale.lt_or_eq.imp_right fun heq => ⟨heq, hodd⟩

namespace ReadsAs

variable {m m' : Nat} {e e' : Int} {v : ℚ}

theorem not_separated (h : ReadsAs m e v) (h' : ReadsAs m' e' v) (hm : Canonical m e)
    (hm' : Canonical m' e') : ¬(e < e' ∨ e = e' ∧ m < m') := by
  intro hlt
  rcases hm.separated hm' hlt with hgap | ⟨heq, hodd | hodd⟩
  · exact absurd (h'.low_le.trans h.le_high) hgap.not_ge
  · exact absurd (h'.low_le.trans_lt (h.inside hodd).2) heq.not_gt
  · exact absurd ((h'.inside hodd).1.trans_le h.le_high) heq.not_gt

/-- No number reads as two doubles. -/
theorem unique (h : ReadsAs m e v) (h' : ReadsAs m' e' v) (hm : Canonical m e)
    (hm' : Canonical m' e') : m = m' ∧ e = e' := by
  have hle := h.not_separated h' hm hm'
  have hge := h'.not_separated h hm' hm
  omega

theorem pos (h : ReadsAs m e v) (hm : 0 < m) : 0 < v := by
  have hlow : 0 < lowQuarters m e := by
    unfold lowQuarters
    split <;> omega
  have hlow' : (0 : ℚ) < lowQuarters m e := by exact_mod_cast hlow
  exact (mul_pos hlow' (quarter_pos e)).trans_le h.low_le

end ReadsAs

/-! ## Spans -/

namespace Span

/-- The number of units of a span in a quarter of the last place. -/
def scale (e : Int) : Nat := if 2 ≤ e then Nat.pow 2 (e - 2).toNat else Nat.pow 5 (2 - e).toNat

theorem scale_pos (e : Int) : 0 < scale e := by
  unfold scale
  split
  · exact Nat.pow_pos (by decide)
  · exact Nat.pow_pos (by decide)

theorem low_ofBinary (m : Nat) (e : Int) : (ofBinary m e).low = lowQuarters m e * scale e :=
  rfl

theorem value_ofBinary (m : Nat) (e : Int) : (ofBinary m e).value = 4 * m * scale e :=
  rfl

theorem high_ofBinary (m : Nat) (e : Int) : (ofBinary m e).high = highQuarters m * scale e :=
  rfl

theorem scale_mul_exponent (m : Nat) (e : Int) :
    (scale e : ℚ) * 10 ^ (ofBinary m e).exponent = quarter e := by
  unfold scale ofBinary quarter
  dsimp only
  split
  · next h =>
    obtain ⟨k, hk⟩ := Int.eq_ofNat_of_zero_le (by omega : 0 ≤ e - 2)
    simp [hk]
  · next h =>
    obtain ⟨k, hk⟩ := Int.eq_ofNat_of_zero_le (by omega : 0 ≤ 2 - e)
    have hexponent : e - 2 = -(k : Int) := by omega
    have hten : (10 : ℚ) ^ k = 5 ^ k * 2 ^ k := by rw [← mul_pow]; norm_num
    rw [hk, hexponent, zpow_neg, zpow_neg, zpow_natCast, zpow_natCast, hten, Nat.pow_eq,
      Int.toNat_natCast]
    push_cast
    field_simp

theorem bounds_of_contains {s : Span} {n : Nat} (h : s.contains n = true) :
    (s.low ≤ n ∧ n ≤ s.high) ∧ (s.closed = false → s.low < n ∧ n < s.high) := by
  unfold contains at h
  split at h
  · next hclosed =>
    exact ⟨of_decide_eq_true h, fun hopen => absurd (hclosed.symm.trans hopen) (by decide)⟩
  · have hbounds := of_decide_eq_true h
    exact ⟨⟨hbounds.1.le, hbounds.2.le⟩, fun _ => hbounds⟩

theorem contains_of_lt {s : Span} {n : Nat} (hlow : s.low < n) (hhigh : n < s.high) :
    s.contains n = true := by
  unfold contains
  split
  · exact decide_eq_true ⟨hlow.le, hhigh.le⟩
  · exact decide_eq_true ⟨hlow, hhigh⟩

/-- What is in the span reads as the double. -/
theorem readsAs_of_contains {m n : Nat} {e : Int} (h : (ofBinary m e).contains n = true) :
    ReadsAs m e (n * 10 ^ (ofBinary m e).exponent) := by
  obtain ⟨⟨hlow, hhigh⟩, hinside⟩ := bounds_of_contains h
  have hunit : (0 : ℚ) < 10 ^ (ofBinary m e).exponent := zpow_pos (by norm_num) _
  have hends (k : Nat) : (k : ℚ) * quarter e =
      (k * scale e : Nat) * 10 ^ (ofBinary m e).exponent := by
    rw [← scale_mul_exponent m e]
    push_cast
    ring
  refine ⟨?_, ?_, fun hodd => ?_⟩
  · rw [hends, ← low_ofBinary]
    exact mul_le_mul_of_nonneg_right (by exact_mod_cast hlow) hunit.le
  · rw [hends, ← high_ofBinary]
    exact mul_le_mul_of_nonneg_right (by exact_mod_cast hhigh) hunit.le
  · have hopen : (ofBinary m e).closed = false := by simp [ofBinary, hodd]
    obtain ⟨hlow, hhigh⟩ := hinside hopen
    rw [hends, hends, ← low_ofBinary, ← high_ofBinary]
    exact ⟨mul_lt_mul_of_pos_right (by exact_mod_cast hlow) hunit,
      mul_lt_mul_of_pos_right (by exact_mod_cast hhigh) hunit⟩

theorem contains_value {m : Nat} (hm : 0 < m) (e : Int) :
    (ofBinary m e).contains (ofBinary m e).value = true := by
  have hlow : lowQuarters m e < 4 * m := by
    unfold lowQuarters
    split <;> omega
  have hhigh : 4 * m < highQuarters m := Nat.lt_add_of_pos_right (by decide)
  exact contains_of_lt (Nat.mul_lt_mul_of_pos_right hlow (scale_pos e))
    (Nat.mul_lt_mul_of_pos_right hhigh (scale_pos e))

theorem contains_of_nearest? {s : Span} {grid q : Nat} (h : s.nearest? grid = some q) :
    s.contains (q * grid) = true := by
  unfold nearest? at h
  dsimp only at h
  split at h
  · next hdown hup =>
    split at h <;> cases h
    · exact hdown
    · exact hup
  · next hdown _ =>
    cases h
    exact hdown
  · next _ hup =>
    cases h
    exact hup
  · cases h

/-- The search gives a number of the span. -/
theorem exists_value_search {s : Span} (h : s.contains s.value = true) (j : Nat) :
    ∃ n, s.contains n = true ∧ (s.search j).value = n * 10 ^ s.exponent := by
  induction j with
  | zero => exact ⟨s.value, h, rfl⟩
  | succ j ih =>
    unfold search
    split
    · next q hq =>
      refine ⟨_, contains_of_nearest? hq, ?_⟩
      rw [Nat.mul_comm]
      exact (cast_pow_mul_zpow q (j + 1) s.exponent).symm
    · exact ih

end Span

/-- A double reads as itself. -/
theorem ReadsAs.self {m : Nat} (hm : 0 < m) (e : Int) : ReadsAs m e (m * 2 ^ e) := by
  have hvalue : (m : ℚ) * 2 ^ e =
      (Span.ofBinary m e).value * 10 ^ (Span.ofBinary m e).exponent := by
    rw [Span.value_ofBinary, Nat.cast_mul, mul_assoc, Span.scale_mul_exponent, quarter,
      zpow_sub₀ (by norm_num)]
    push_cast
    ring
  rw [hvalue]
  exact Span.readsAs_of_contains (Span.contains_value hm e)

/-- The shortest text of a double writes a number that reads as it. -/
theorem Span.shortest_writes {m : Nat} (hm : 0 < m) (e : Int) :
    ∃ v, Decimal.WritesValue (ofBinary m e).shortest.text v ∧ ReadsAs m e v := by
  obtain ⟨n, hn, hvalue⟩ := exists_value_search (contains_value hm e)
    ((Nat.toDigits 10 (ofBinary m e).value).length - 1)
  have hreads := readsAs_of_contains hn
  rw [← hvalue] at hreads
  refine ⟨_, Decimal.text_writes (Nat.pos_of_ne_zero fun hzero => ?_), hreads⟩
  have hpos := hreads.pos hm
  rw [Decimal.value, shortest] at *
  simp [hzero] at hpos

/-! ## Displays -/

theorem Decimal.natural_writes (n : Nat) : WritesValue (Nat.toDigits 10 n) n := by
  have hfraction : ∀ c ∈ ([] : List Char), c.isDigit = true := nofun
  have h := WritesValue.of_parts Nat.toDigits_ne_nil (@isDigit_of_mem_toDigits n) hfraction
    (.inr ⟨rfl, rfl⟩) (rfl : readExponent? [] = some 0) rfl
  simpa [digitsValue_toDigits] using h

namespace Number

theorem cast_of_magnitude? {m n : Nat} {e : Int} (h : magnitude? m e = some n) :
    (n : ℚ) = m * 2 ^ e := by
  unfold magnitude? at h
  split at h
  · next he =>
    cases h
    obtain ⟨k, rfl⟩ := Int.eq_ofNat_of_zero_le he
    simp
  · next he =>
    split at h
    · next hmod =>
      cases h
      obtain ⟨k, rfl⟩ : ∃ k : Nat, e = -(k : Int) := ⟨e.natAbs, by omega⟩
      rw [Int.natAbs_neg, Int.natAbs_natCast, Nat.pow_eq] at hmod ⊢
      obtain ⟨q, rfl⟩ := Nat.dvd_of_mod_eq_zero hmod
      rw [Nat.mul_div_cancel_left _ (Nat.pow_pos (by decide)), zpow_neg, zpow_natCast]
      push_cast
      field_simp
    · cases h

theorem magnitude?_pos {m n : Nat} {e : Int} (h : magnitude? m e = some n) (hm : 0 < m) :
    0 < n := by
  have hcast := cast_of_magnitude? h
  have hpos : (0 : ℚ) < m * 2 ^ e := by positivity
  rw [← hcast] at hpos
  exact_mod_cast hpos

theorem integer_natCast (n : Nat) : Text.integer n = Text.natural n := by
  rw [Text.integer, if_neg (by omega), Int.natAbs_natCast]

theorem integer_neg_natCast {n : Nat} (h : 0 < n) :
    Text.integer (-(n : Int)) = "-" ++ Text.natural n := by
  rw [Text.integer, if_pos (by omega), Int.natAbs_neg, Int.natAbs_natCast]

/-- The display of the positive number `m * 2 ^ e`. -/
def magnitudeText (m : Nat) (e : Int) : String :=
  match magnitude? m e with
  | some n => Text.natural n
  | none => String.ofList (Span.ofBinary m e).shortest.text

/-- The display of a negative number is that of the positive one behind a sign. -/
theorem display_of_finite {x : Number} {s : UnpackedFloat.Sign} {m : Nat} {e : Int} {h : 0 < m}
    (hx : x.toModel.unpack = .finite s m e h) :
    x.display = signText s ++ magnitudeText m e := by
  unfold display toInt? text magnitudeText
  cases s with
  | positive =>
    simp only [hx]
    cases magnitude? m e with
    | none => rfl
    | some n => exact (integer_natCast n).trans String.empty_append.symm
  | negative =>
    simp only [hx]
    cases hmagnitude : magnitude? m e with
    | none => rfl
    | some n => exact integer_neg_natCast (magnitude?_pos hmagnitude h)

theorem magnitudeText_writes {m : Nat} (h : 0 < m) (e : Int) :
    ∃ v, Decimal.WritesValue (magnitudeText m e).toList v ∧ ReadsAs m e v := by
  unfold magnitudeText
  cases hmagnitude : magnitude? m e with
  | some n =>
    refine ⟨n, ?_, ?_⟩
    · dsimp only
      rw [Text.natural, String.toList_ofList]
      exact Decimal.natural_writes n
    · rw [cast_of_magnitude? hmagnitude]
      exact .self h e
  | none =>
    dsimp only
    rw [String.toList_ofList]
    exact Span.shortest_writes h e

/-- The display of a positive number writes a number that reads as it. -/
theorem exists_display_writes {x : Number} {m : Nat} {e : Int} {h : 0 < m}
    (hx : x.toModel.unpack = .finite .positive m e h) :
    ∃ v, Decimal.WritesValue x.display.toList v ∧ ReadsAs m e v := by
  rw [display_of_finite hx, signText, String.empty_append]
  exact magnitudeText_writes h e

theorem display_zero_writes {x : Number} (hx : x.toModel.unpack = .zero .positive) :
    Decimal.WritesValue x.display.toList 0 := by
  unfold display toInt?
  simp only [hx]
  exact_mod_cast Decimal.natural_writes 0

/-- The display of a number that is not negative writes zero for zero, and for every other one a
number that reads as it. -/
theorem writes_display {x : Number} (hx : Unsigned x.toModel.unpack) (hfinite : x.isInf = false) :
    ∃ v, Decimal.WritesValue x.display.toList v ∧
      (x.toModel.unpack = .zero .positive ∧ v = 0 ∨
        ∃ m e h, x.toModel.unpack = .finite .positive m e h ∧ Canonical m e ∧ ReadsAs m e v) := by
  generalize hu : x.toModel.unpack = u at hx
  cases hx with
  | zero => exact ⟨0, display_zero_writes hu, .inl ⟨rfl, rfl⟩⟩
  | finite m e h =>
    obtain ⟨v, hwrites, hreads⟩ := exists_display_writes hu
    exact ⟨v, hwrites, .inr ⟨m, e, h, rfl, canonical hu, hreads⟩⟩
  | infinity =>
    have hinf : x.isInf = x.toModel.unpack.isInf := rfl
    rw [hinf, hu] at hfinite
    cases hfinite

/-- Finite numbers that are not negative and differ have different displays. -/
theorem display_inj {x y : Number} (hx : Unsigned x.toModel.unpack)
    (hy : Unsigned y.toModel.unpack) (hxfinite : x.isInf = false) (hyfinite : y.isInf = false)
    (h : x.display = y.display) : x = y := by
  obtain ⟨v, hv, hcases⟩ := writes_display hx hxfinite
  obtain ⟨v', hv', hcases'⟩ := writes_display hy hyfinite
  rw [h] at hv
  obtain rfl := hv.unique hv'
  refine eq_of_unpack_eq ?_
  rcases hcases with ⟨hzero, rfl⟩ | ⟨m, e, hm, hfinite, hcanonical, hreads⟩
  · rcases hcases' with ⟨hzero', -⟩ | ⟨m', e', hm', -, -, hreads'⟩
    · rw [hzero, hzero']
    · exact absurd (hreads'.pos hm') (lt_irrefl 0)
  · rcases hcases' with ⟨-, rfl⟩ | ⟨m', e', hm', hfinite', hcanonical', hreads'⟩
    · exact absurd (hreads.pos hm) (lt_irrefl 0)
    · obtain ⟨rfl, rfl⟩ := hreads.unique hreads' hcanonical hcanonical'
      rw [hfinite, hfinite']

end Number

end LoxLang
