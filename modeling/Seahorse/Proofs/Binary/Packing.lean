import Mathlib
import Seahorse.Proofs.Binary.Rounding

/-!
# Finite numbers in a word

A finite number of a binary format is a mantissa with few digits and an exponent within bounds; a
mantissa without a leading one has the least exponent (`Canonical`). That is what can be unpacked
from a word, and a number with a leading one is unpacked as it was packed.

The library's lemmas about packed words, such as `unpackSign_packComponents`, are in no part of Mathlib
smaller than the whole.
-/

namespace Seahorse.Binary

open Float.Model (Format UnpackedFloat)
open Float.Model.UnpackedFloat

variable {spec : Format}

/-- The mantissas and exponents of the finite numbers of a format. -/
structure Canonical (spec : Format) (m : ℕ) (e : ℤ) : Prop where
  lt : m < 2 ^ spec.mantissaBits
  min_le : spec.minExponent ≤ e
  le_max : e ≤ (spec.exponentBias : ℤ) - spec.mantissaBitsWithoutImplicit
  leading : 2 ^ spec.mantissaBitsWithoutImplicit ≤ m ∨ e = spec.minExponent

theorem two_pow_exponentBits (spec : Format) :
    2 ^ spec.exponentBits = 2 * spec.exponentBias + 2 := by
  obtain ⟨k, hk⟩ := Nat.exists_eq_add_of_lt spec.he
  have hpos := Nat.two_pow_pos k
  rw [Format.exponentBias, hk]
  simp only [Nat.zero_add, Nat.add_sub_cancel, pow_succ]
  omega

theorem minExponent_eq (spec : Format) :
    spec.minExponent = 1 - spec.exponentBias - spec.mantissaBitsWithoutImplicit := by
  have hpos := Nat.two_pow_pos (spec.exponentBits - 1)
  rw [Format.minExponent, Format.exponentBias, Format.mantissaBits]
  push_cast [Nat.one_le_iff_ne_zero.mpr hpos.ne']
  ring

theorem toNat_one_append {w : ℕ} (v : BitVec w) : (1#1 ++ v).toNat = 2 ^ w + v.toNat := by
  have hor := Nat.two_pow_add_eq_or_of_lt v.isLt 1
  simpa [BitVec.toNat_append, Nat.shiftLeft_eq] using hor.symm

variable {b : BitVec spec.numBits} {s : Sign} {m : ℕ} {e : ℤ} {hm : 0 < m}

/-- A mantissa with a leading one is packed without it. -/
theorem pack_normal (hlow : 2 ^ spec.mantissaBitsWithoutImplicit ≤ m)
    (hhigh : m < 2 ^ spec.mantissaBits) {field : ℕ} (hfield : field + 1 < 2 ^ spec.exponentBits)
    (he : e = field - (spec.exponentBias + spec.mantissaBitsWithoutImplicit)) :
    pack spec (.finite s m e hm) = packComponents spec s (.ofNat _ field) (.ofNat _ m) := by
  have hlog : m.log2 = spec.mantissaBitsWithoutImplicit := by
    rw [Nat.log2_eq_iff hm.ne', pow_succ, mul_comm _ 2, ← two_pow_mantissaBits]
    exact ⟨hlow, hhigh⟩
  have hbiased : (e + spec.exponentBias + spec.mantissaBitsWithoutImplicit).toNat = field := by
    omega
  simp only [pack, hbiased, hlog]
  rw [if_neg (by omega), if_pos (by rw [Format.mantissaBits, Nat.add_comm])]

theorem toNat_neg_one (w : ℕ) : (-1#w).toNat = 2 ^ w - 1 := by
  rw [BitVec.neg_one_eq_allOnes, BitVec.toNat_allOnes]

/-- A finite number that was unpacked from a word is canonical. -/
theorem canonical_of_unpack (hbias : 0 < spec.exponentBias) (h : unpack spec b = .finite s m e hm) :
    Canonical spec m e := by
  have hbits := two_pow_exponentBits spec
  have hmin := minExponent_eq spec
  have hpow := two_pow_mantissaBits spec
  have hmantissa := (unpackMantissa b).isLt
  have hexponent := (unpackExponent b).isLt
  rw [unpack] at h
  split_ifs at h with hones hnone hzero hnone'
  · obtain ⟨-, hmeq, heeq⟩ := (UnpackedFloat.finite.injEq ..).mp h
    rw [hzero, BitVec.toNat_zero] at heeq
    have he : e = spec.minExponent := by omega
    exact ⟨by omega, he.ge, by omega, .inr he⟩
  · obtain ⟨-, hmeq, heeq⟩ := (UnpackedFloat.finite.injEq ..).mp h
    rw [toNat_one_append] at hmeq
    have hne : (unpackExponent b).toNat ≠ 2 ^ spec.exponentBits - 1 := fun heq =>
      hones (BitVec.eq_of_toNat_eq (heq.trans (toNat_neg_one _).symm))
    have hpos : (unpackExponent b).toNat ≠ 0 := fun heq => hzero (BitVec.eq_of_toNat_eq heq)
    exact ⟨by omega, by omega, by omega, .inl (by omega)⟩

/-- A number with a leading one is unpacked as it was packed. -/
theorem unpack_pack (h : Canonical spec m e) (hlow : 2 ^ spec.mantissaBitsWithoutImplicit ≤ m) :
    unpack spec (pack spec (.finite s m e hm)) = .finite s m e hm := by
  have hbits := two_pow_exponentBits spec
  have hmin := minExponent_eq spec
  have hpow := two_pow_mantissaBits spec
  obtain ⟨hlt, hmine, hmax, -⟩ := h
  obtain ⟨field, hfield⟩ : ∃ field : ℕ,
      e = field - (spec.exponentBias + spec.mantissaBitsWithoutImplicit) :=
    ⟨(e + spec.exponentBias + spec.mantissaBitsWithoutImplicit).toNat, by omega⟩
  have htoNat : (BitVec.ofNat spec.exponentBits field).toNat = field := by
    rw [BitVec.toNat_ofNat, Nat.mod_eq_of_lt (by omega)]
  have hones : BitVec.ofNat spec.exponentBits field ≠ -1#_ := by
    intro heq
    have := congrArg BitVec.toNat heq
    rw [htoNat, toNat_neg_one] at this
    omega
  have hzero : BitVec.ofNat spec.exponentBits field ≠ 0#_ := by
    intro heq
    have := congrArg BitVec.toNat heq
    rw [htoNat, BitVec.toNat_zero] at this
    omega
  have hmantissa : (1#1 ++ BitVec.ofNat spec.mantissaBitsWithoutImplicit m).toNat = m := by
    have hmod : m % 2 ^ spec.mantissaBitsWithoutImplicit =
        m - 2 ^ spec.mantissaBitsWithoutImplicit := by
      rw [Nat.mod_eq_sub_mod hlow, Nat.mod_eq_of_lt (by omega)]
    rw [toNat_one_append, BitVec.toNat_ofNat, hmod]
    omega
  rw [pack_normal hlow hlt (by omega) hfield, unpack]
  simp only [unpackExponent_packComponents, unpackMantissa_packComponents,
    unpackSign_packComponents, Sign.ofBitVec_toBitVec, hones, hzero, if_false, hmantissa, htoNat, hfield]

end Seahorse.Binary
