import Mathlib.Algebra.Order.Field.Power
import Mathlib.Data.Rat.Cast.Order
import Mathlib.Tactic.FieldSimp
import Mathlib.Tactic.Linarith
import Mathlib.Tactic.Positivity
import Mathlib.Tactic.Ring

/-!
# Rounding to a binary format

Rounding cuts a number off behind the digits that the format has room for, keeps two bits about what
was cut off, and decides by these. Here this is said in rationals: the two bits locate the number
between two multiples of the last digit (`Locates`), cutting off one more digit keeps the location,
and the multiple that is decided for is the nearest, the even one of two that are equally near
(`IsNearest`).
-/

namespace Seahorse.Binary

open Float.Model
open Float.Model.UnpackedFloat

/-- The natural number nearest to `z`; of two equally near ones the even one. -/
structure IsNearest (z : ℚ) (n : ℕ) : Prop where
  close : |z - n| ≤ 1 / 2
  even : |z - n| = 1 / 2 → n % 2 = 0

/-- Of two numbers that are equally near only one is even. -/
theorem IsNearest.unique {z : ℚ} {n m : ℕ} (hn : IsNearest z n) (hm : IsNearest z m) : n = m := by
  -- Of two nearest numbers that differ, one follows the other and both are even.
  have key {a b : ℕ} (ha : IsNearest z a) (hb : IsNearest z b) : ¬ a < b := by
    intro hlt
    have hle : (a : ℚ) + 1 ≤ b := by exact_mod_cast hlt
    obtain ⟨-, hza⟩ := abs_le.mp ha.close
    obtain ⟨hzb, -⟩ := abs_le.mp hb.close
    have haeq : z - a = 1 / 2 := by linarith
    have hbeq : z - b = -(1 / 2) := by linarith
    have hsucc : b = a + 1 := by
      have : (b : ℚ) = a + 1 := by linarith
      exact_mod_cast this
    have haeven := ha.even (by rw [haeq]; norm_num)
    have hbeven := hb.even (by rw [hbeq]; norm_num)
    omega
  exact Nat.le_antisymm (Nat.not_lt.mp (key hm hn)) (Nat.not_lt.mp (key hn hm))

theorem IsNearest.natCast (n : ℕ) : IsNearest n n :=
  ⟨by norm_num, fun h => by norm_num at h⟩

/-- Where the number lies that an extended mantissa was cut from, in units of the last digit. -/
def Locates (em : ExtendedMantissa) (z : ℚ) : Prop :=
  match em.roundBit, em.stickyBit with
  | false, false => z = em.mantissa
  | false, true => em.mantissa < z ∧ z < em.mantissa + 1 / 2
  | true, false => z = em.mantissa + 1 / 2
  | true, true => em.mantissa + 1 / 2 < z ∧ z < em.mantissa + 1

namespace Locates

variable {em : ExtendedMantissa} {z : ℚ}

theorem exact (m : ℕ) : Locates (.ofMantissaAndAccuracy m .exact) m :=
  rfl

theorem dyadic (m : ℕ) (e : ℤ) : Locates (.ofMantissaAndAccuracy m .exact) (m * 2 ^ e / 2 ^ e) := by
  rw [mul_div_cancel_right₀ _ (by positivity)]
  exact .exact m

/-- A number is at least the digits that are left of it. -/
theorem le (h : Locates em z) : em.mantissa ≤ z := by
  obtain ⟨m, _ | _, _ | _⟩ := em <;> simp only [Locates] at h <;> linarith

/-- A number is less than the next multiple of the last digit left of it. -/
theorem lt_succ (h : Locates em z) : z < em.mantissa + 1 := by
  obtain ⟨m, _ | _, _ | _⟩ := em <;> simp only [Locates] at h <;> linarith

/-- What the two bits decide for is the nearest multiple. -/
theorem isNearest (h : Locates em z) : IsNearest z em.roundedMantissa := by
  obtain ⟨m, _ | _, _ | _⟩ := em <;> simp only [Locates] at h
  · subst h
    exact .natCast m
  · show IsNearest z m
    have hlt : |z - m| < 1 / 2 := abs_lt.mpr ⟨by linarith, by linarith⟩
    exact ⟨hlt.le, fun heq => absurd heq hlt.ne⟩
  · show IsNearest z (m + m % 2)
    subst h
    rcases Nat.mod_two_eq_zero_or_one m with hm | hm
    · rw [hm]
      exact ⟨by norm_num, fun _ => hm⟩
    · rw [hm]
      refine ⟨?_, fun _ => by omega⟩
      push_cast
      rw [abs_le]
      constructor <;> linarith
  · show IsNearest z (m + 1)
    have hlt : |z - ((m + 1 : ℕ) : ℚ)| < 1 / 2 := by
      push_cast
      exact abs_lt.mpr ⟨by linarith, by linarith⟩
    exact ⟨hlt.le, fun heq => absurd heq hlt.ne⟩

/-- Cutting off another digit keeps the location: what the two bits said is now behind the digit. -/
theorem shiftRightOne (h : Locates em z) : Locates em.shiftRightOne (z / 2) := by
  obtain ⟨m, r, s⟩ := em
  have hdiv : ((m % 2 : ℕ) : ℚ) + 2 * ((m / 2 : ℕ) : ℚ) = m := by
    exact_mod_cast Nat.mod_add_div m 2
  rcases Nat.mod_two_eq_zero_or_one m with hm | hm <;> rw [hm] at hdiv <;> push_cast at hdiv <;>
    cases r <;> cases s <;>
    simp only [Locates, ExtendedMantissa.shiftRightOne, hm, bne_self_eq_false, Nat.reduceBNe,
      Bool.or_false, Bool.or_true] at h ⊢ <;>
    grind

/-- Cutting off more digits keeps the location. -/
theorem shiftRight (h : Locates em z) (n : ℕ) : Locates (em >>> n) (z / 2 ^ n) := by
  induction n with
  | zero => rwa [pow_zero, div_one]
  | succ n ih =>
    rw [pow_succ, ← div_div]
    exact ih.shiftRightOne

end Locates

/-! ## The rounded number -/

theorem minExponent_binary64 : Format.binary64.minExponent = -1074 := by decide

theorem mantissaBits_binary64 : Format.binary64.mantissaBits = 53 := rfl

theorem mantissaBits_binary32 : Format.binary32.mantissaBits = 24 := rfl

/-- Powers of two with integer exponents are compared by taking out the difference. -/
theorem two_zpow_eq {a b : ℤ} {n : ℕ} (h : a = b + n) : (2 : ℚ) ^ a = 2 ^ n * 2 ^ b := by
  rw [h, zpow_add₀ two_ne_zero, zpow_natCast, mul_comm]

variable (spec : Format) (s : Sign)

theorem mantissaBits_eq : spec.mantissaBits = 1 + spec.mantissaBitsWithoutImplicit := rfl

theorem two_pow_mantissaBits :
    2 ^ spec.mantissaBits = 2 * 2 ^ spec.mantissaBitsWithoutImplicit := by
  rw [mantissaBits_eq, pow_add, pow_one]

/-- The number `n · 2^t`, where `n` has at most as many digits as the format, or is the first number
with more. -/
def rounded (n : ℕ) (t : ℤ) : UnpackedFloat :=
  if h : n = 0 then .zero s
  else if n = 2 ^ spec.mantissaBits then
    .finite s (2 ^ spec.mantissaBitsWithoutImplicit) (t + 1) (Nat.two_pow_pos _)
  else .finite s n t (Nat.pos_of_ne_zero h)

/-- A rounded mantissa that fits is the result as it is. -/
theorem rounded_of_lt {n : ℕ} {t : ℤ} (hpos : 0 < n) (hlt : n < 2 ^ spec.mantissaBits) :
    rounded spec s n t = .finite s n t hpos := by
  rw [rounded, dif_neg hpos.ne', if_neg hlt.ne]

/-- One that has become too long by rounding is a power of two, and loses a zero. -/
theorem rounded_two_pow (t : ℤ) :
    rounded spec s (2 ^ spec.mantissaBits) t =
      .finite s (2 ^ spec.mantissaBitsWithoutImplicit) (t + 1) (Nat.two_pow_pos _) := by
  rw [rounded, dif_neg (Nat.two_pow_pos _).ne', if_pos rfl]

/-- A mantissa that fits is not shifted. -/
theorem shiftToTargetExponent_of_lt {n : ℕ} {t : ℤ} (hn : n < 2 ^ spec.mantissaBits)
    (ht : spec.minExponent ≤ t) :
    shiftToTargetExponent spec n t .exact = (⟨n, false, false⟩, t) := by
  have hlog : n.log2 < spec.mantissaBits := by
    by_cases hzero : n = 0
    · rw [hzero, Nat.log2_zero, mantissaBits_eq]
      omega
    · exact (Nat.log2_lt hzero).mpr hn
  have hshift : (spec.targetExponent (totalExponent n t) - t).toNat = 0 := by
    rw [Format.targetExponent, totalExponent]
    omega
  rw [shiftToTargetExponent, shiftToExponent, hshift]
  simp only [Nat.cast_zero, add_zero]
  rfl

theorem shiftToTargetExponent_two_pow {t : ℤ} (ht : spec.minExponent ≤ t) :
    shiftToTargetExponent spec (2 ^ spec.mantissaBits) t .exact =
      (⟨2 ^ spec.mantissaBitsWithoutImplicit, false, false⟩, t + 1) := by
  have hshift : (spec.targetExponent (totalExponent (2 ^ spec.mantissaBits) t) - t).toNat = 1 := by
    rw [Format.targetExponent, totalExponent, Nat.log2_two_pow]
    omega
  rw [shiftToTargetExponent, shiftToExponent, hshift]
  change (ExtendedMantissa.shiftRightOne ⟨2 ^ spec.mantissaBits, false, false⟩, t + 1) = _
  rw [two_pow_mantissaBits]
  simp [ExtendedMantissa.shiftRightOne]

variable {M : ℕ} {E : ℤ} {y : ℚ}

theorem mantissa_ofMantissaAndAccuracy (M : ℕ) (acc : Accuracy) :
    (ExtendedMantissa.ofMantissaAndAccuracy M acc).mantissa = M := by
  rcases acc with _ | _ | _ | _ <;> rfl

/-- The total exponent is the place of the first digit: the number is less than that power of two. -/
theorem lt_two_zpow_totalExponent {acc : Accuracy}
    (hy : Locates (.ofMantissaAndAccuracy M acc) (y / 2 ^ E)) : y < 2 ^ totalExponent M E := by
  have hM : (M : ℚ) + 1 ≤ 2 ^ (M.log2 + 1) := by exact_mod_cast Nat.lt_log2_self
  have hlt := hy.lt_succ
  rw [mantissa_ofMantissaAndAccuracy] at hlt
  replace hlt := hlt.trans_le hM
  rw [div_lt_iff₀ (by positivity), ← zpow_natCast, ← zpow_add₀ two_ne_zero] at hlt
  exact_mod_cast hlt

/-- The number is at least half of that power of two. -/
theorem two_zpow_totalExponent_le {acc : Accuracy} (hM : 0 < M)
    (hy : Locates (.ofMantissaAndAccuracy M acc) (y / 2 ^ E)) :
    2 ^ (totalExponent M E - 1) ≤ y := by
  have hlog : (2 : ℚ) ^ M.log2 ≤ M := by exact_mod_cast Nat.log2_self_le hM.ne'
  have hle := hy.le
  rw [mantissa_ofMantissaAndAccuracy] at hle
  replace hle := hlog.trans hle
  rw [le_div_iff₀ (by positivity), ← zpow_natCast, ← zpow_add₀ two_ne_zero] at hle
  rwa [totalExponent, show (M.log2 : ℤ) + 1 + E - 1 = M.log2 + E by omega]

/-- A number whose leading digits are given to a finer exponent than the format has is rounded to
the nearest multiple of the last digit that the format has. -/
theorem roundWithAccuracy_eq {acc : Accuracy} {t : ℤ}
    (hy : Locates (.ofMantissaAndAccuracy M acc) (y / 2 ^ E))
    (ht : spec.targetExponent (totalExponent M E) = t) (hE : E ≤ t) :
    ∃ n, IsNearest (y / 2 ^ t) n ∧ n ≤ 2 ^ spec.mantissaBits ∧
      roundWithAccuracy spec s M E acc = rounded spec s n t := by
  obtain ⟨k, hk⟩ := Int.eq_ofNat_of_zero_le (sub_nonneg.mpr hE)
  obtain rfl : t = E + k := by omega
  have hmin : spec.minExponent ≤ E + k := by rw [← ht]; exact le_max_right _ _
  have hfirst : shiftToTargetExponent spec M E acc =
      (ExtendedMantissa.ofMantissaAndAccuracy M acc >>> k, E + k) := by
    rw [shiftToTargetExponent, ht, shiftToExponent, hk]
    rfl
  have hlocated := hy.shiftRight k
  rw [div_div, ← zpow_natCast, ← zpow_add₀ two_ne_zero] at hlocated
  have hnearest := hlocated.isNearest
  generalize ExtendedMantissa.ofMantissaAndAccuracy M acc >>> k = em at hfirst hnearest
  have hbound : em.roundedMantissa ≤ 2 ^ spec.mantissaBits := by
    have hz : y / 2 ^ (E + k) < 2 ^ spec.mantissaBits := by
      rw [div_lt_iff₀ (by positivity), ← zpow_natCast, ← zpow_add₀ two_ne_zero]
      refine (lt_two_zpow_totalExponent hy).trans_le (zpow_le_zpow_right₀ one_le_two ?_)
      have hmax : totalExponent M E - spec.mantissaBits ≤ E + k := by
        rw [← ht]
        exact le_max_left _ _
      omega
    have hclose := (abs_le.mp hnearest.close).1
    have hlt : (em.roundedMantissa : ℚ) < 2 ^ spec.mantissaBits + 1 := by linarith
    exact Nat.lt_succ_iff.mp (by exact_mod_cast hlt)
  refine ⟨em.roundedMantissa, hnearest, hbound, ?_⟩
  rw [roundWithAccuracy, hfirst]
  rcases hbound.lt_or_eq with hlt | heq
  · dsimp only
    rw [shiftToTargetExponent_of_lt spec hlt hmin]
    by_cases hzero : em.roundedMantissa = 0
    · rw [rounded, dif_pos hzero, dif_pos hzero]
    · rw [rounded_of_lt spec s (Nat.pos_of_ne_zero hzero) hlt]
      exact dif_neg hzero
  · dsimp only
    rw [heq, shiftToTargetExponent_two_pow spec hmin, rounded_two_pow]
    exact dif_neg (Nat.two_pow_pos _).ne'

/-- Zeros behind a mantissa do not move its first digit. -/
theorem totalExponent_shiftLeft (hM : 0 < M) (k : ℕ) :
    totalExponent (M <<< k) (E - k) = totalExponent M E := by
  have hlog : (M <<< k).log2 = M.log2 + k := by
    rw [Nat.shiftLeft_eq, Nat.log2_eq_iff (by positivity), pow_add, add_right_comm, pow_add]
    have hpos := Nat.two_pow_pos k
    exact ⟨Nat.mul_le_mul_right _ (Nat.log2_self_le hM.ne'),
      Nat.mul_lt_mul_of_pos_right Nat.lt_log2_self hpos⟩
  rw [totalExponent, totalExponent, hlog]
  omega

/-- A number with finitely many digits is rounded to the nearest multiple of the last digit that the
format has. -/
theorem round_eq {t : ℤ} (hM : 0 < M) (ht : spec.targetExponent (totalExponent M E) = t) :
    ∃ n, IsNearest (M * 2 ^ E / 2 ^ t) n ∧ n ≤ 2 ^ spec.mantissaBits ∧
      UnpackedFloat.round spec s M E = rounded spec s n t := by
  have hvalue : (M * 2 ^ E : ℚ) / 2 ^ (E - (E - t).toNat) = (M <<< (E - t).toNat : ℕ) := by
    rw [Nat.shiftLeft_eq, mul_div_assoc, ← zpow_sub₀ two_ne_zero, sub_sub_cancel]
    push_cast
    rw [zpow_natCast]
  have hlocates : Locates (.ofMantissaAndAccuracy (M <<< (E - t).toNat) .exact)
      (M * 2 ^ E / 2 ^ (E - (E - t).toNat)) := by
    rw [hvalue]
    exact .exact _
  have hround : UnpackedFloat.round spec s M E =
      roundWithAccuracy spec s (M <<< (E - t).toNat) (E - (E - t).toNat) .exact := by
    simp only [UnpackedFloat.round, decreaseExponent, ht]
  rw [hround]
  exact roundWithAccuracy_eq spec s hlocates (by rw [totalExponent_shiftLeft hM, ht]) (by omega)

/-- The exponent that a format gives to a number, told by the size of the number. -/
theorem targetExponent_eq {acc : Accuracy} {t : ℤ} (hM : 0 < M)
    (hy : Locates (.ofMantissaAndAccuracy M acc) (y / 2 ^ E)) (hmin : spec.minExponent ≤ t)
    (hlow : t = spec.minExponent ∨ 2 ^ (t + spec.mantissaBits - 1) ≤ y)
    (hhigh : y < 2 ^ (t + spec.mantissaBits)) :
    spec.targetExponent (totalExponent M E) = t := by
  have hle : totalExponent M E - 1 < t + spec.mantissaBits := by
    rw [← zpow_lt_zpow_iff_right₀ (one_lt_two : (1 : ℚ) < 2)]
    exact (two_zpow_totalExponent_le hM hy).trans_lt hhigh
  rw [Format.targetExponent]
  rcases hlow with rfl | hlow
  · omega
  · have hlt : t + spec.mantissaBits - 1 < totalExponent M E := by
      rw [← zpow_lt_zpow_iff_right₀ (one_lt_two : (1 : ℚ) < 2)]
      exact hlow.trans_lt (lt_two_zpow_totalExponent hy)
    omega

/-- A number of a known size is rounded to the nearest multiple of the last digit. -/
theorem round_eq_rounded {t : ℤ} {n : ℕ} (hM : 0 < M) (hmin : spec.minExponent ≤ t)
    (hlow : t = spec.minExponent ∨ 2 ^ (t + spec.mantissaBits - 1) ≤ (M * 2 ^ E : ℚ))
    (hhigh : (M * 2 ^ E : ℚ) < 2 ^ (t + spec.mantissaBits)) (hn : IsNearest (M * 2 ^ E / 2 ^ t) n) :
    UnpackedFloat.round spec s M E = rounded spec s n t := by
  obtain ⟨n', hn', -, hround⟩ :=
    round_eq spec s hM (targetExponent_eq spec hM (.dyadic M E) hmin hlow hhigh)
  rw [hround, hn'.unique hn]

end Seahorse.Binary
