import LoxLang.Number.Basic
import Mathlib

/-! # Doubles by mantissa and exponent

The bits of a double are a sign, an exponent and a mantissa, and `Unpacks` tells what they stand
for. A finite double is a mantissa and a power of two, in the one form that fits its bits
(`Number.canonical`), and doubles with the same unpacked form are the same
(`Number.eq_of_unpack_eq`). -/

namespace LoxLang

open Float.Model (UnpackedFloat Format)
open Float.Model.UnpackedFloat (Sign unpackSign unpackExponent unpackMantissa)

/-- What the fields of a double stand for. -/
inductive Unpacks (s : Sign) : Nat → Nat → UnpackedFloat → Prop
  | infinity : Unpacks s 2047 0 (.infinity s)
  | notANumber {m : Nat} : m ≠ 0 → Unpacks s 2047 m .notANumber
  | zero : Unpacks s 0 0 (.zero s)
  /-- Numbers with the least exponent may have short mantissas. -/
  | least {m : Nat} (h : 0 < m) : m < 2 ^ 52 → Unpacks s 0 m (.finite s m (-1074) h)
  /-- The leading bit of the other mantissas is not stored. -/
  | full {k m : Nat} (h : 0 < 2 ^ 52 + m) : 0 < k → k < 2047 → m < 2 ^ 52 →
    Unpacks s k m (.finite s (2 ^ 52 + m) (k - 1075) h)

theorem toNat_one_append {w : Nat} (v : BitVec w) : (1#1 ++ v).toNat = 2 ^ w + v.toNat := by
  rw [BitVec.toNat_append, ← Nat.shiftLeft_add_eq_or_of_lt v.isLt]
  simp [Nat.shiftLeft_eq]

theorem unpacks_unpack (b : BitVec Format.binary64.numBits) :
    Unpacks (.ofBitVec (unpackSign b)) (unpackExponent b).toNat (unpackMantissa b).toNat
      (UnpackedFloat.unpack Format.binary64 b) := by
  have hbias : ((Format.binary64.exponentBias : Nat) : Int) = 1023 := rfl
  have hmantissa : (unpackMantissa b).toNat < 2 ^ 52 := (unpackMantissa b).isLt
  have hexponent : (unpackExponent b).toNat < 2 ^ 11 := (unpackExponent b).isLt
  unfold UnpackedFloat.unpack
  dsimp only
  split
  · next hones =>
    rw [hones]
    split
    · next hzero =>
      rw [hzero]
      exact .infinity
    · next hzero => exact .notANumber fun h => hzero (BitVec.eq_of_toNat_eq h)
  · next hones =>
    split
    · next hleast =>
      split
      · next hzero =>
        rw [hleast, hzero]
        exact .zero
      · next hzero =>
        rw [hleast]
        exact .least _ hmantissa
    · next hleast =>
      have hpos : (unpackExponent b).toNat ≠ 0 := fun h => hleast (BitVec.eq_of_toNat_eq h)
      have hlt : (unpackExponent b).toNat ≠ 2047 := fun h => hones (BitVec.eq_of_toNat_eq h)
      simp only [toNat_one_append]
      exact .full _ (by omega) (by omega) hmantissa

/-- The mantissa and the exponent are those of a finite double: of all pairs with the same value,
the one whose mantissa has 53 bits, or the one with the least exponent. -/
structure Canonical (m : Nat) (e : Int) : Prop where
  pos : 0 < m
  mantissa_lt : m < 2 ^ 53
  exponent_ge : -1074 ≤ e
  full : 2 ^ 52 ≤ m ∨ e = -1074

theorem Unpacks.canonical {s s' : Sign} {k f m : Nat} {e : Int} {h : 0 < m}
    (hu : Unpacks s k f (.finite s' m e h)) : Canonical m e := by
  cases hu with
  | least _ hlt => exact ⟨h, by omega, by omega, .inr rfl⟩
  | full => exact ⟨h, by omega, by omega, .inl (by omega)⟩

/-- What stands for the same has the same fields, unless it is not a number. -/
theorem Unpacks.fields_eq {s s' : Sign} {k k' f f' : Nat} {u u' : UnpackedFloat}
    (h : Unpacks s k f u) (h' : Unpacks s' k' f' u') (hu : u = u') (hne : u ≠ .notANumber) :
    s = s' ∧ k = k' ∧ f = f' := by
  cases h with
  | notANumber => exact absurd rfl hne
  | infinity | zero =>
    cases h' <;> cases hu
    exact ⟨rfl, rfl, rfl⟩
  | least _ hlt | full _ hpos =>
    cases h' with
    | infinity | notANumber | zero => cases hu
    | least _ hlt' | full _ hpos' =>
      obtain ⟨rfl, hm, he⟩ := UnpackedFloat.finite.inj hu
      exact ⟨rfl, by omega, by omega⟩

theorem Number.canonical {x : Number} {s : Sign} {m : Nat} {e : Int} {h : 0 < m}
    (hx : x.toModel.unpack = .finite s m e h) : Canonical m e := by
  have hview := unpacks_unpack x.toModel.toBits.toBitVec
  rw [Float.Model.unpack] at hx
  rw [hx] at hview
  exact hview.canonical

/-- The bits are the three fields. -/
theorem bits_eq (b : BitVec Format.binary64.numBits) :
    unpackSign b ++ unpackExponent b ++ unpackMantissa b = b := by
  simp only [unpackSign, unpackExponent, unpackMantissa, BitVec.extractLsb]
  ext i hi
  grind

theorem toBitVec_ofBitVec : ∀ v : BitVec 1, (Sign.ofBitVec v).toBitVec = v := by
  decide

theorem eq_packedNaN_of_unpack {b : BitVec Format.binary64.numBits}
    (hb : Format.binary64.Valid b) (h : UnpackedFloat.unpack Format.binary64 b = .notANumber) :
    b = UnpackedFloat.packedNaN Format.binary64 := by
  have hview := unpacks_unpack b
  rw [h] at hview
  generalize hk : (unpackExponent b).toNat = k at hview
  generalize hf : (unpackMantissa b).toNat = f at hview
  cases hview with
  | notANumber hne =>
    refine hb.eq_packedNaN (BitVec.eq_of_toNat_eq hk) fun hzero => hne ?_
    rw [← hf, hzero]
    rfl

/-- A double is determined by its unpacked form. -/
theorem Number.eq_of_unpack_eq {x y : Number} (h : x.toModel.unpack = y.toModel.unpack) :
    x = y := by
  obtain ⟨⟨⟨b⟩, hb⟩⟩ := x
  obtain ⟨⟨⟨c⟩, hc⟩⟩ := y
  change UnpackedFloat.unpack Format.binary64 b = UnpackedFloat.unpack Format.binary64 c at h
  suffices hbits : b = c by
    subst hbits
    rfl
  by_cases hnan : UnpackedFloat.unpack Format.binary64 b = .notANumber
  · exact (eq_packedNaN_of_unpack hb hnan).trans (eq_packedNaN_of_unpack hc (h ▸ hnan)).symm
  · obtain ⟨hsign, hexponent, hmantissa⟩ := (unpacks_unpack b).fields_eq (unpacks_unpack c) h hnan
    have hsign' := congrArg Sign.toBitVec hsign
    rw [toBitVec_ofBitVec, toBitVec_ofBitVec] at hsign'
    rw [← bits_eq b, ← bits_eq c, hsign', BitVec.eq_of_toNat_eq hexponent,
      BitVec.eq_of_toNat_eq hmantissa]

/-- Not negative, and not a number that is none. -/
inductive Unsigned : UnpackedFloat → Prop
  | zero : Unsigned (.zero .positive)
  | finite (m : Nat) (e : Int) (h : 0 < m) : Unsigned (.finite .positive m e h)
  | infinity : Unsigned (.infinity .positive)

end LoxLang
