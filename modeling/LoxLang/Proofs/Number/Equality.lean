import LoxLang.Proofs.Machine.Renaming
import LoxLang.Proofs.Number.Display

/-! # Displays tell numbers apart

Numbers that are equal have the same display, and numbers that differ have different ones
(`Number.display_eq_iff`): the two zeros are shown alike, and every other number is determined by
its sign and by the digits or the word behind it (`Shows.beq`). A number that is an integer is shown
by the digits of the integer, all of them (`Number.numeral_display`). -/

namespace LoxLang

open Float.Model (UnpackedFloat)
open Float.Model.UnpackedFloat (Sign)
open Number (digitsValue signText magnitude?)

/-! ## Integers -/

/-- The text is the integer in decimal digits: none of them is a zero in front of other digits, and
there is a minus sign in front if the integer is negative. -/
def Text.Numeral (i : Int) (cs : List Char) : Prop :=
  ∃ digits, cs = (if i < 0 then ['-'] else []) ++ digits ∧ digits ≠ [] ∧
    (∀ d ∈ digits, d.isDigit = true) ∧ (digits.head? = some '0' → digits = ['0']) ∧
    digitsValue digits = i.natAbs

theorem eq_zero_of_head?_toDigits {n : Nat} (h : (Nat.toDigits 10 n).head? = some '0') :
    n = 0 := by
  induction n using Nat.strongRecOn with
  | ind n ih =>
    rw [Nat.toDigits_eq_if (by decide)] at h
    split at h
    · next hlt =>
      have hdigit : ∀ n < 10, Nat.digitChar n = '0' → n = 0 := by decide
      exact hdigit n hlt (Option.some.inj h)
    · next hge =>
      rw [List.head?_append_of_ne_nil _ Nat.toDigits_ne_nil] at h
      have := ih (n / 10) (by omega) h
      omega

theorem Text.numeral_integer (i : Int) : Text.Numeral i (Text.integer i).toList := by
  refine ⟨Nat.toDigits 10 i.natAbs, ?_, Nat.toDigits_ne_nil, isDigit_of_mem_toDigits, fun h => ?_,
    digitsValue_toDigits _⟩
  · unfold Text.integer Text.natural
    split <;> simp
  · rw [eq_zero_of_head?_toDigits h]
    rfl

namespace Number

/-- The rational number that a finite double is. -/
def value? (x : Number) : Option ℚ :=
  match x.toModel.unpack with
  | .notANumber | .infinity _ => none
  | .zero _ => some 0
  | .finite .positive m e _ => some (m * 2 ^ e)
  | .finite .negative m e _ => some (-(m * 2 ^ e))

theorem magnitude?_eq_some {m n : Nat} {e : Int} (h : (n : ℚ) = m * 2 ^ e) :
    magnitude? m e = some n := by
  unfold magnitude?
  split
  · next he =>
    obtain ⟨k, rfl⟩ := Int.eq_ofNat_of_zero_le he
    rw [zpow_natCast] at h
    rw [Int.toNat_natCast, Nat.pow_eq]
    exact congrArg some (by exact_mod_cast h.symm)
  · next he =>
    obtain ⟨k, rfl⟩ : ∃ k : Nat, e = -(k : Int) := ⟨e.natAbs, by omega⟩
    rw [zpow_neg, zpow_natCast, ← div_eq_mul_inv, eq_div_iff (by positivity)] at h
    have hm : n * 2 ^ k = m := by exact_mod_cast h
    rw [Int.natAbs_neg, Int.natAbs_natCast, Nat.pow_eq, ← hm, Nat.mul_mod_left, if_pos rfl,
      Nat.mul_div_cancel _ (Nat.pow_pos (by decide))]

/-- A double with an integral value is the integer. -/
theorem toInt?_of_value? {x : Number} {i : Int} (h : x.value? = some (i : ℚ)) :
    x.toInt? = some i := by
  unfold value? at h
  unfold toInt?
  cases hu : x.toModel.unpack with
  | notANumber | infinity =>
    simp only [hu] at h
    cases h
  | zero s =>
    simp only [hu, Option.some.injEq] at h ⊢
    exact_mod_cast h
  | finite s m e hm =>
    have hpos : (0 : ℚ) < m * 2 ^ e := by positivity
    cases s with
    | positive =>
      simp only [hu, Option.some.injEq] at h ⊢
      have hi : 0 < i := by
        rw [h] at hpos
        exact_mod_cast hpos
      obtain ⟨n, rfl⟩ := Int.eq_ofNat_of_zero_le hi.le
      have hn : (n : ℚ) = m * 2 ^ e := by exact_mod_cast h.symm
      rw [magnitude?_eq_some hn]
      rfl
    | negative =>
      simp only [hu, Option.some.injEq] at h ⊢
      have hi : 0 < -i := by
        rw [neg_eq_iff_eq_neg.mp h] at hpos
        exact_mod_cast hpos
      obtain ⟨n, hn⟩ := Int.eq_ofNat_of_zero_le hi.le
      obtain rfl : i = -(n : Int) := by omega
      push_cast at h
      rw [magnitude?_eq_some (neg_injective h).symm]
      rfl

/-- An integral number is shown by the digits of the integer, however large it is. -/
theorem numeral_display {x : Number} {i : Int} (h : x.value? = some (i : ℚ)) :
    Text.Numeral i x.display.toList := by
  rw [display, toInt?_of_value? h]
  exact Text.numeral_integer i

end Number

/-! ## Signs and what is behind them -/

/-- What the display of a number shows: a sign, and behind it a decimal number that reads as the
double, or a word. Zero has no sign. -/
inductive Shows : UnpackedFloat → Sign → List Char → Prop
  | zero (s : Sign) : Shows (.zero s) .positive ['0']
  | finite {s : Sign} {m : Nat} {e : Int} {h : 0 < m} {cs : List Char} {v : ℚ} :
    Decimal.WritesValue cs v → ReadsAs m e v → Canonical m e → Shows (.finite s m e h) s cs
  | infinity (s : Sign) : Shows (.infinity s) s ['i', 'n', 'f']

theorem Number.exists_shows {x : Number} (hx : x.isNaN = false) :
    ∃ s cs, x.display.toList = (signText s).toList ++ cs ∧ Shows x.toModel.unpack s cs := by
  have hnan : x.isNaN = x.toModel.unpack.isNaN := rfl
  cases hu : x.toModel.unpack with
  | notANumber =>
    rw [hnan, hu] at hx
    cases hx
  | zero s =>
    refine ⟨.positive, _, ?_, .zero s⟩
    unfold display toInt?
    simp only [hu]
    rfl
  | infinity s =>
    refine ⟨s, _, ?_, .infinity s⟩
    unfold display toInt? text
    simp only [hu, String.toList_append]
    rfl
  | finite s m e h =>
    obtain ⟨v, hwrites, hreads⟩ := magnitudeText_writes h e
    refine ⟨s, _, ?_, .finite hwrites hreads (canonical hu)⟩
    rw [display_of_finite hu, String.toList_append]

theorem Decimal.WritesValue.head_isDigit {c : Char} {cs : List Char} {v : ℚ}
    (h : WritesValue (c :: cs) v) : c.isDigit = true := by
  obtain ⟨d, hd, -⟩ := h
  obtain ⟨c', rest, heq, hdigit⟩ := hd.exists_head
  cases heq
  exact hdigit

namespace Shows

variable {u u' : UnpackedFloat} {s s' : Sign} {cs cs' : List Char}

theorem head_ne_minus (h : Shows u s cs) : cs.head? ≠ some '-' := by
  cases h with
  | zero | infinity => decide
  | finite hwrites =>
    intro hminus
    obtain ⟨rest, rfl⟩ := List.head?_eq_some_iff.mp hminus
    exact absurd hwrites.head_isDigit (by decide)

/-- The sign can be told from what is behind it. -/
theorem sign_inj (h : Shows u s cs) (h' : Shows u' s' cs')
    (heq : (signText s).toList ++ cs = (signText s').toList ++ cs') : s = s' ∧ cs = cs' := by
  cases s with
  | positive =>
    cases s' with
    | positive => exact ⟨rfl, heq⟩
    | negative => exact absurd (congrArg List.head? heq) h.head_ne_minus
  | negative =>
    cases s' with
    | positive => exact absurd (congrArg List.head? heq).symm h'.head_ne_minus
    | negative => exact ⟨rfl, List.tail_eq_of_cons_eq heq⟩

/-- Numbers that show the same are equal. -/
theorem beq (h : Shows u s cs) (h' : Shows u' s cs) : UnpackedFloat.beq u u' = true := by
  have hzero : Decimal.WritesValue ['0'] 0 := by exact_mod_cast Decimal.natural_writes 0
  cases h with
  | zero =>
    cases h' with
    | zero => rfl
    | finite hwrites hreads hcanonical =>
      obtain rfl := hwrites.unique hzero
      exact absurd (hreads.pos hcanonical.pos) (lt_irrefl 0)
  | infinity =>
    cases h' with
    | finite hwrites => exact absurd hwrites.head_isDigit (by decide)
    | infinity => cases s <;> rfl
  | finite hwrites hreads hcanonical =>
    cases h' with
    | zero =>
      obtain rfl := hwrites.unique hzero
      exact absurd (hreads.pos hcanonical.pos) (lt_irrefl 0)
    | infinity => exact absurd hwrites.head_isDigit (by decide)
    | finite hwrites' hreads' hcanonical' =>
      obtain rfl := hwrites.unique hwrites'
      obtain ⟨rfl, rfl⟩ := hreads.unique hreads' hcanonical hcanonical'
      cases s <;> simp [UnpackedFloat.beq, UnpackedFloat.compare]

end Shows

/-! ## Equal numbers -/

/-- Equal numbers are the same, but for the sign of zero. -/
theorem eq_or_zero_of_beq {u u' : UnpackedFloat} (h : u.beq u' = true) :
    u = u' ∨ ∃ s s', u = .zero s ∧ u' = .zero s' := by
  cases u with
  | notANumber => cases h
  | zero s =>
    cases u' with
    | zero s' => exact .inr ⟨s, s', rfl, rfl⟩
    | notANumber => cases h
    | infinity s' | finite s' => cases s' <;> cases h
  | infinity s =>
    cases u' with
    | infinity s' => cases s <;> cases s' <;> first | exact .inl rfl | cases h
    | notANumber => cases h
    | zero | finite => cases s <;> cases h
  | finite s m e hm =>
    cases u' with
    | finite s' m' e' hm' =>
      refine .inl ?_
      cases s <;> cases s'
      case negative.positive | positive.negative => cases h
      all_goals
        obtain ⟨rfl, rfl⟩ : e = e' ∧ m = m' := by
          simpa [UnpackedFloat.beq, UnpackedFloat.compare, Ordering.then_eq_eq] using h
        rfl
    | notANumber => cases h
    | zero => cases s <;> cases h
    | infinity s' => cases s' <;> cases s <;> cases h

namespace Number

/-- Numbers have the same display if and only if they are equal. -/
theorem display_eq_iff {x y : Number} (hx : x.isNaN = false) (hy : y.isNaN = false) :
    x.display = y.display ↔ (x == y) = true := by
  have hbeq : (x == y) = UnpackedFloat.beq x.toModel.unpack y.toModel.unpack := rfl
  obtain ⟨s, cs, hdisplay, hshows⟩ := exists_shows hx
  obtain ⟨s', cs', hdisplay', hshows'⟩ := exists_shows hy
  rw [hbeq]
  constructor
  · intro h
    rw [h, hdisplay'] at hdisplay
    obtain ⟨rfl, rfl⟩ := hshows'.sign_inj hshows hdisplay
    exact hshows.beq hshows'
  · intro h
    rcases eq_or_zero_of_beq h with h | ⟨s, s', hzero, hzero'⟩
    · rw [eq_of_unpack_eq h]
    · unfold display toInt?
      simp only [hzero, hzero']

end Number

/-! ## Comparing displays in a program -/

/-- The expression that joins the empty string and the value of another one. -/
def Node.shown (plus : Token) (node : Node) : Node := .binary (.literal (.string "")) plus node

theorem Node.eval_shown {plus : Token} (hplus : plus.kind = .plus) {node : Node} {x : Number}
    {m m' : Machine} (h : node.eval m = .ok (.number x) m') :
    (node.shown plus).eval m = .ok (.string x.display) m' := by
  have hadd : applyBinary plus (.string "") (.number x) = .ok (.string x.display) := by
    simp only [applyBinary, hplus, add, String.empty_append]
  rw [shown, eval, bind_apply_of_ok (rfl : eval (.literal (.string "")) m = .ok (.string "") m),
    bind_apply_of_ok h, hadd]
  rfl

theorem Node.eval_equals {equals : Token} (hequals : equals.kind = .equalEqual) {left right : Node}
    {a b : Value} {m m₁ m₂ : Machine} (hleft : left.eval m = .ok a m₁)
    (hright : right.eval m₁ = .ok b m₂) :
    (Node.binary left equals right).eval m = .ok (.bool (a.isEqual b)) m₂ := by
  have happly : applyBinary equals a b = .ok (.bool (a.isEqual b)) := by
    simp only [applyBinary, hequals]
  rw [eval, bind_apply_of_ok hleft, bind_apply_of_ok hright, happly]
  rfl

/-- A number that is an integer is shown by the digits of the integer. Two numbers have the same
display if and only if they are equal, and so a program that compares them as strings gets the same
answer as one that compares the numbers. -/
theorem displays_equal_iff_numbers_equal {x y : Number} (hx : x.isNaN = false)
    (hy : y.isNaN = false) :
    (∀ i : Int, x.value? = some (i : ℚ) → Text.Numeral i (Value.number x).display.toList) ∧
    ((Value.number x).display = (Value.number y).display ↔
      (Value.number x).isEqual (.number y) = true) ∧
    ∀ (plus plus' equals : Token) (left right : Node) (m m₁ m₂ : Machine),
      plus.kind = .plus → plus'.kind = .plus → equals.kind = .equalEqual →
      left.eval m = .ok (.number x) m₁ → right.eval m₁ = .ok (.number y) m₂ →
      (Node.binary (left.shown plus) equals (right.shown plus')).eval m =
        (Node.binary left equals right).eval m := by
  have hiff := Number.display_eq_iff hx hy
  refine ⟨fun i hi => Number.numeral_display hi, hiff, ?_⟩
  intro plus plus' equals left right m m₁ m₂ hplus hplus' hequals hleft hright
  have hleft' := Node.eval_shown hplus hleft
  have hright' := Node.eval_shown hplus' hright
  have hanswer : (Value.string x.display).isEqual (.string y.display) =
      (Value.number x).isEqual (.number y) := by
    rw [Bool.eq_iff_iff]
    exact beq_iff_eq.trans hiff
  rw [Node.eval_equals hequals hleft' hright', Node.eval_equals hequals hleft hright, hanswer]

/-- `10 ^ 22` is a double and shown by all its digits, and the double nearest to a tenth is shown in
another way. -/
theorem largeInteger_shown_apart_from_tenth :
    let x : Number := 1e22
    let y : Number := 0.1
    x.isNaN = false ∧ y.isNaN = false ∧ x.value? = some ((10 ^ 22 : Int) : ℚ) ∧
      Text.Numeral (10 ^ 22) (Value.number x).display.toList ∧
      (Value.number x).display ≠ (Value.number y).display := by
  intro x y
  have hx : x.isNaN = false := by decide
  have hy : y.isNaN = false := by decide
  have hunpack : (1e22 : Number).toModel.unpack =
      .finite .positive 4768371582031250 21 (by decide) := by rfl
  have hvalue : x.value? = some ((10 ^ 22 : Int) : ℚ) := by
    unfold Number.value?
    simp only [x, hunpack]
    norm_num
  obtain ⟨hnumeral, hiff, -⟩ := displays_equal_iff_numbers_equal hx hy
  exact ⟨hx, hy, hvalue, hnumeral _ hvalue, mt hiff.mp (by decide)⟩

end LoxLang
