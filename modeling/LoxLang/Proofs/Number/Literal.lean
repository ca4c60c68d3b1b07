import LoxLang.Proofs.Number.Binary

/-! # Written numbers are not negative

The double nearest to a decimal number without a sign is zero, positive or infinite, and its sign
bit is not set (`Number.unsigned_ofDigits`). -/

namespace LoxLang

open Float.Model (UnpackedFloat Format)
open Float.Model.UnpackedFloat

theorem Unpacks.unsigned {k f : Nat} {u : UnpackedFloat} (h : Unpacks .positive k f u)
    (hnumber : k ≠ 2047 ∨ f = 0) : Unsigned u := by
  cases h with
  | infinity => exact .infinity
  | notANumber hf =>
    rcases hnumber with hk | hf'
    · exact absurd rfl hk
    · exact absurd hf' hf
  | zero => exact .zero
  | least h => exact .finite _ _ h
  | full h => exact .finite _ _ h

theorem unpackSign_packComponents (s : Sign) (exponent : BitVec 11) (mantissa : BitVec 52) :
    unpackSign (packComponents Format.binary64 s exponent mantissa) = s.toBitVec := by
  change (s.toBitVec ++ exponent ++ mantissa).extractLsb' 63 1 = s.toBitVec
  rw [BitVec.extractLsb'_append_eq_of_le (by decide),
    BitVec.extractLsb'_append_eq_of_le (by decide)]
  cases s <;> rfl

theorem unsigned_packComponents {exponent : BitVec 11} {mantissa : BitVec 52}
    (h : exponent.toNat ≠ 2047 ∨ mantissa.toNat = 0) :
    Unsigned (unpack Format.binary64
      (packComponents Format.binary64 .positive exponent mantissa)) := by
  have hview := unpacks_unpack (packComponents Format.binary64 .positive exponent mantissa)
  rw [unpackSign_packComponents, unpackExponent_packComponents, unpackMantissa_packComponents]
    at hview
  exact Unpacks.unsigned hview h

theorem unsigned_pack {u : UnpackedFloat} (h : Unsigned u) :
    Unsigned (Float.Model.pack u).unpack := by
  change Unsigned (unpack Format.binary64 (pack Format.binary64 u))
  cases h with
  | zero => exact unsigned_packComponents (.inr rfl)
  | infinity => exact unsigned_packComponents (.inr rfl)
  | finite m e h =>
    unfold pack
    dsimp only
    split
    · exact unsigned_packComponents (.inr rfl)
    · next hlt =>
      split
      · refine unsigned_packComponents (.inl ?_)
        rw [BitVec.toNat_ofNat]
        have hmod := Nat.mod_le (e + Format.binary64.exponentBias +
          Format.binary64.mantissaBitsWithoutImplicit).toNat (2 ^ 11)
        omega
      · exact unsigned_packComponents (.inl (by decide))

/-! ## Arithmetic -/

variable (spec : Format)

theorem unsigned_roundWithAccuracy (m : Nat) (e : Int) (accuracy : Accuracy) :
    Unsigned (roundWithAccuracy spec .positive m e accuracy) := by
  unfold roundWithAccuracy
  dsimp only
  split
  · exact .zero
  · exact .finite _ _ _

theorem unsigned_mul {a : UnpackedFloat} (ha : Unsigned a) (m : Nat) (e : Int) (h : 0 < m) :
    Unsigned (mul spec a (.finite .positive m e h)) := by
  cases ha with
  | zero => exact .zero
  | infinity => exact .infinity
  | finite => exact unsigned_roundWithAccuracy spec ..

theorem unsigned_div {a : UnpackedFloat} (ha : Unsigned a) (m : Nat) (e : Int) (h : 0 < m) :
    Unsigned (div spec a (.finite .positive m e h)) := by
  cases ha with
  | zero => exact .zero
  | infinity => exact .infinity
  | finite => exact unsigned_roundWithAccuracy spec ..

theorem unsigned_ofNat (n : Nat) : Unsigned (UnpackedFloat.ofNat spec n) := by
  unfold UnpackedFloat.ofNat UnpackedFloat.ofInt UnpackedFloat.normalize
  split
  · next h => exact absurd h (by simp [Int.compare_eq_lt])
  · exact .zero
  · exact unsigned_roundWithAccuracy spec ..

theorem unsigned_ofScientific (m : Nat) (e : Int) :
    Unsigned (UnpackedFloat.ofScientific spec m e) := by
  unfold UnpackedFloat.ofScientific
  split
  · exact .zero
  · split
    · exact .infinity
    · split
      · exact .zero
      · split
        · exact unsigned_mul spec (.finite _ _ _) ..
        · exact unsigned_div spec (.finite _ _ _) ..

/-! ## Decimal numbers -/

def isPositive : UnpackedFloat → Bool
  | .finite .positive .. => true
  | _ => false

theorem exists_finite_of_isPositive {u : UnpackedFloat} (h : isPositive u = true) :
    ∃ m e h, u = .finite .positive m e h := by
  unfold isPositive at h
  split at h
  · exact ⟨_, _, _, rfl⟩
  · cases h

theorem isPositive_powersOfTen :
    ∀ x ∈ Float.exactlyRepresentablePowersOfTen.toList, isPositive x.toModel.unpack = true := by
  decide +kernel

theorem Number.unsigned_scientific (m : Nat) (s : Bool) (e : Nat) :
    Unsigned (Float.ofScientific m s e).toModel.unpack := by
  unfold Float.ofScientific
  split
  · next h =>
    have hlt : e < Float.exactlyRepresentablePowersOfTen.size := Nat.lt_succ_of_le h.2
    have hmem : Float.exactlyRepresentablePowersOfTen[e] ∈
        Float.exactlyRepresentablePowersOfTen.toList :=
      Array.mem_toList_iff.mpr (Array.getElem_mem hlt)
    obtain ⟨m', e', h', hpower⟩ := exists_finite_of_isPositive (isPositive_powersOfTen _ hmem)
    have hm : Unsigned m.toUInt64.toFloat.toModel.unpack := unsigned_pack (unsigned_ofNat _ _)
    dsimp only
    split
    · refine unsigned_pack ?_
      rw [hpower]
      exact unsigned_div _ hm ..
    · refine unsigned_pack ?_
      rw [hpower]
      exact unsigned_mul _ hm ..
  · exact unsigned_pack (unsigned_ofScientific _ _ _)

theorem Number.unsigned_ofDigits (whole fraction : List Char) :
    Unsigned (ofDigits whole fraction).toModel.unpack := by
  unfold ofDigits scaled
  split
  · exact unsigned_scientific ..
  · exact unsigned_scientific ..

end LoxLang
