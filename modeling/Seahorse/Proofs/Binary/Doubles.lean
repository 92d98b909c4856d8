import Seahorse.Json.Numeral
import Seahorse.Proofs.Binary.Packing
import Seahorse.Proofs.Binary.Rounding

/-!
# Products and quotients of doubles

A double with a leading one denotes a positive rational (`Denotes`). The product and the quotient of
two such doubles denote what the exact result is rounded to with 53 binary digits (`IsRounded`), so
they are off by at most one part in `2^53`, and exact where the exact result has that few digits.
-/

namespace Seahorse.Binary

open Float.Model (Format UnpackedFloat totalExponent)
open Float.Model.UnpackedFloat

/-- `w` is `y` up to one part in `2^p`. -/
def Near (p : ℕ) (y w : ℚ) : Prop :=
  |w - y| * 2 ^ p ≤ y

namespace Near

variable {p : ℕ} {y z w : ℚ}

theorem nonneg (h : Near p y w) : 0 ≤ y :=
  (mul_nonneg (abs_nonneg _) (by positivity)).trans h

theorem pred (h : Near (p + 1) y w) : Near p y w := by
  have hpos : 0 ≤ |w - y| * 2 ^ p := mul_nonneg (abs_nonneg _) (by positivity)
  rw [Near, pow_succ, ← mul_assoc] at h
  rw [Near]
  linarith

theorem mul_left (h : Near p y w) {c : ℚ} (hc : 0 ≤ c) : Near p (c * y) (c * w) := by
  rw [Near, ← mul_sub, abs_mul, abs_of_nonneg hc, mul_assoc]
  exact mul_le_mul_of_nonneg_left h hc

/-- In a denominator a number may be off by half as much. -/
theorem div_left (h : Near (p + 1) y w) (hy : 0 < y) {c : ℚ} (hc : 0 ≤ c) :
    Near p (c / y) (c / w) := by
  have hone : (1 : ℚ) ≤ 2 ^ p := one_le_pow₀ one_le_two
  have hclose : |w - y| * 2 ^ p ≤ y / 2 := by
    rw [Near, pow_succ, ← mul_assoc] at h
    linarith
  have hhalf : |w - y| ≤ y / 2 := (le_mul_of_one_le_right (abs_nonneg _) hone).trans hclose
  have hw : y / 2 ≤ w := by linarith [(abs_le.mp hhalf).1]
  have hpos : 0 < w := by linarith
  have heq : c / w - c / y = c / y * ((y - w) / w) := by field_simp
  rw [Near, heq, abs_mul, abs_of_nonneg (div_nonneg hc hy.le), abs_div, abs_of_pos hpos,
    abs_sub_comm, mul_assoc]
  refine mul_le_of_le_one_right (by positivity) ?_
  rw [div_mul_eq_mul_div, div_le_one hpos]
  exact hclose.trans hw

theorem trans (h : Near (p + 1) y z) (h' : Near (p + 2) z w) : Near p y w := by
  have hone : (1 : ℚ) ≤ 2 ^ p := one_le_pow₀ one_le_two
  have hyz : |z - y| * 2 ^ p ≤ y / 2 := by
    rw [Near, pow_succ, ← mul_assoc] at h
    linarith
  have hz : z ≤ 2 * y := by
    have hclose := (le_mul_of_one_le_right (abs_nonneg _) hone).trans hyz
    linarith [(abs_le.mp hclose).2, h.nonneg]
  have hzw : |w - z| * 2 ^ p ≤ y / 2 := by
    rw [Near, pow_add, ← mul_assoc] at h'
    linarith
  calc |w - y| * 2 ^ p ≤ (|w - z| + |z - y|) * 2 ^ p :=
        mul_le_mul_of_nonneg_right (abs_sub_le w z y) (by positivity)
    _ = |w - z| * 2 ^ p + |z - y| * 2 ^ p := add_mul _ _ _
    _ ≤ y := by linarith

end Near

/-- `w` is what `y` is rounded to with 53 binary digits. -/
def IsRounded (y w : ℚ) : Prop :=
  ∃ (t : ℤ) (n : ℕ), 2 ^ (t + 52) ≤ y ∧ y < 2 ^ (t + 53) ∧ IsNearest (y / 2 ^ t) n ∧ w = n * 2 ^ t

namespace IsRounded

variable {y w : ℚ}

/-- Rounding is off by at most one part in `2^53`. -/
theorem near (h : IsRounded y w) : Near 53 y w := by
  obtain ⟨t, n, hlow, -, hnearest, rfl⟩ := h
  have hpos : (0 : ℚ) < 2 ^ t := by positivity
  have hclose : |n * 2 ^ t - y| ≤ 1 / 2 * 2 ^ t := by
    have heq : n * 2 ^ t - y = -(y / 2 ^ t - n) * 2 ^ t := by field_simp; ring
    rw [heq, abs_mul, abs_neg, abs_of_pos hpos]
    exact mul_le_mul_of_nonneg_right hnearest.close hpos.le
  rw [zpow_add₀ two_ne_zero] at hlow
  rw [Near]
  norm_num at hlow hclose ⊢
  linarith

/-- A number with at most 53 binary digits stays as it is. -/
theorem eq_of_dyadic (h : IsRounded y w) {n : ℕ} {e : ℤ} (hn : n < 2 ^ 53) (hy : y = n * 2 ^ e) :
    w = y := by
  obtain ⟨t, k, hlow, -, hnearest, rfl⟩ := h
  have hle : t ≤ e := by
    have hlt : (2 : ℚ) ^ (t + 52) < 2 ^ (e + 53) := by
      have hn' : (n : ℚ) < 2 ^ (53 : ℤ) := by exact_mod_cast hn
      rw [zpow_add₀ two_ne_zero e, mul_comm]
      exact (hy ▸ hlow).trans_lt (mul_lt_mul_of_pos_right hn' (by positivity))
    have := (zpow_lt_zpow_iff_right₀ (one_lt_two : (1 : ℚ) < 2)).mp hlt
    omega
  obtain ⟨j, hj⟩ := Int.eq_ofNat_of_zero_le (sub_nonneg.mpr hle)
  have hquotient : y / 2 ^ t = (n * 2 ^ j : ℕ) := by
    rw [hy, mul_div_assoc, ← zpow_sub₀ two_ne_zero, hj]
    push_cast
    rw [zpow_natCast]
  have hk : k = n * 2 ^ j := hnearest.unique (hquotient ▸ .natCast _)
  rw [hk, ← hquotient, div_mul_cancel₀ _ (by positivity)]

end IsRounded

/-- The double is the positive number `v`, with a leading one. -/
def Denotes (d : Double) (v : ℚ) : Prop :=
  ∃ (m : ℕ) (e : ℤ) (hm : 0 < m),
    d.toModel.unpack = .finite .positive m e hm ∧ 2 ^ 52 ≤ m ∧ v = m * 2 ^ e

/-- The number is between two powers of two. Up to the 900th power all numbers are rounded to
doubles with a leading one. -/
def InRange (b : ℕ) (y : ℚ) : Prop :=
  2 ^ (-b : ℤ) ≤ y ∧ y ≤ 2 ^ (b : ℤ)

namespace InRange

variable {b c : ℕ} {y z : ℚ}

theorem mono (h : InRange b y) (hbc : b ≤ c) : InRange c y :=
  ⟨(zpow_le_zpow_right₀ one_le_two (by omega)).trans h.1,
    h.2.trans (zpow_le_zpow_right₀ one_le_two (by omega))⟩

theorem mul (hy : InRange b y) (hz : InRange c z) : InRange (b + c) (y * z) := by
  have hpos : 0 < y := lt_of_lt_of_le (by positivity) hy.1
  rw [InRange, Nat.cast_add, neg_add, zpow_add₀ two_ne_zero, zpow_add₀ two_ne_zero]
  exact ⟨mul_le_mul hy.1 hz.1 (by positivity) hpos.le,
    mul_le_mul hy.2 hz.2 (le_trans (by positivity) hz.1) (by positivity)⟩

theorem inv (hy : InRange b y) : InRange b y⁻¹ := by
  have hpos : 0 < y := lt_of_lt_of_le (by positivity) hy.1
  constructor
  · rw [zpow_neg]
    exact inv_anti₀ hpos hy.2
  · rw [inv_le_comm₀ hpos (by positivity), ← zpow_neg]
    exact hy.1

theorem div (hy : InRange b y) (hz : InRange c z) : InRange (b + c) (y / z) := by
  rw [div_eq_mul_inv]
  exact hy.mul hz.inv

theorem natCast {n : ℕ} (hpos : 0 < n) (hn : n < 2 ^ b) : InRange b n := by
  constructor
  · exact (zpow_le_one_of_nonpos₀ one_le_two (by omega)).trans (by exact_mod_cast hpos)
  · rw [zpow_natCast]
    exact_mod_cast hn.le

/-- A number near one in range is within twice the range. -/
theorem of_near {p : ℕ} (h : Near (p + 1) y z) (hy : InRange b y) : InRange (b + 1) z := by
  have hone : (1 : ℚ) ≤ 2 ^ p := one_le_pow₀ one_le_two
  have hclose : |z - y| ≤ y / 2 := by
    rw [Near, pow_succ, ← mul_assoc] at h
    linarith [le_mul_of_one_le_right (abs_nonneg (z - y)) hone]
  obtain ⟨hlow, hhigh⟩ := abs_le.mp hclose
  have hnonneg := h.nonneg
  constructor
  · rw [Nat.cast_succ, neg_add, ← sub_eq_add_neg, zpow_sub_one₀ two_ne_zero]
    linarith [hy.1]
  · rw [Nat.cast_succ, zpow_add_one₀ two_ne_zero]
    linarith [hy.2]

end InRange

theorem denotes_rounded {n : ℕ} {t : ℤ} (hlow : 2 ^ 52 ≤ n) (hhigh : n ≤ 2 ^ 53)
    (hmin : -1000 ≤ t) (hmax : t ≤ 900) :
    Denotes ⟨.pack (rounded .binary64 .positive n t)⟩ (n * 2 ^ t) := by
  have hdenotes {m : ℕ} {e : ℤ} (hm : 0 < m) (hlow : 2 ^ 52 ≤ m) (hhigh : m < 2 ^ 53)
      (hmin : -1000 ≤ e) (hmax : e ≤ 901) :
      Denotes ⟨.pack (.finite .positive m e hm)⟩ (m * 2 ^ e) := by
    refine ⟨m, e, hm, unpack_pack ⟨hhigh, ?_, ?_, .inl hlow⟩ hlow, hlow, rfl⟩
    · exact (show Format.binary64.minExponent ≤ -1000 by decide).trans hmin
    · exact hmax.trans (by decide)
  rw [rounded, dif_neg (by omega)]
  split_ifs with hcarry
  · have hvalue : (n : ℚ) * 2 ^ t = (2 ^ 52 : ℕ) * 2 ^ (t + 1) := by
      rw [hcarry, zpow_add_one₀ two_ne_zero]
      norm_num [Format.mantissaBits]
      ring
    rw [hvalue]
    exact hdenotes (by norm_num) le_rfl (by norm_num) (by omega) (by omega)
  · have hne : n ≠ 2 ^ 53 := hcarry
    exact hdenotes (by omega) hlow (by omega) hmin (by omega)

/-- A number whose leading digits are given, at least 53 of them, is rounded to 53. -/
theorem denotes_roundWithAccuracy {M : ℕ} {E : ℤ} {acc : Accuracy} {y : ℚ} (hM : 2 ^ 52 ≤ M)
    (hy : Locates (.ofMantissaAndAccuracy M acc) (y / 2 ^ E)) (hrange : InRange 900 y) :
    ∃ w, IsRounded y w ∧ Denotes ⟨.pack (roundWithAccuracy .binary64 .positive M E acc)⟩ w := by
  have hlow := two_zpow_totalExponent_le (by omega) hy
  have hhigh := lt_two_zpow_totalExponent hy
  have hlog : 52 ≤ M.log2 := (Nat.le_log2 (by omega)).mpr hM
  have hmin : -900 < totalExponent M E :=
    (zpow_lt_zpow_iff_right₀ (one_lt_two : (1 : ℚ) < 2)).mp (hrange.1.trans_lt hhigh)
  have hmax : totalExponent M E - 1 ≤ 900 :=
    (zpow_le_zpow_iff_right₀ (one_lt_two : (1 : ℚ) < 2)).mp (hlow.trans hrange.2)
  obtain ⟨t, ht⟩ : ∃ t, totalExponent M E = t + 53 := ⟨totalExponent M E - 53, by omega⟩
  have htarget : Format.binary64.targetExponent (totalExponent M E) = t := by
    rw [Format.targetExponent, ht, minExponent_binary64, mantissaBits_binary64]
    omega
  rw [ht] at hlow hhigh hmin hmax
  rw [show t + 53 - 1 = t + 52 by omega] at hlow
  obtain ⟨n, hnearest, hn, hround⟩ := roundWithAccuracy_eq .binary64 .positive hy htarget (by
    rw [totalExponent] at ht
    omega)
  refine ⟨n * 2 ^ t, ⟨t, n, hlow, hhigh, hnearest, rfl⟩, ?_⟩
  rw [hround]
  have hquotient : (2 : ℚ) ^ 52 ≤ y / 2 ^ t := by
    rw [le_div_iff₀ (by positivity), mul_comm]
    exact_mod_cast (zpow_add₀ (two_ne_zero : (2 : ℚ) ≠ 0) t 52) ▸ hlow
  have hclose := (abs_le.mp hnearest.close).2
  have hn' : 2 ^ 52 ≤ n := by
    have hlt : (2 ^ 52 : ℚ) < n + 1 := by linarith
    exact Nat.lt_succ_iff.mp (by exact_mod_cast hlt)
  exact denotes_rounded hn' hn (by omega) (by omega)

variable {a b : Double} {u v : ℚ}

theorem Denotes.mul (ha : Denotes a u) (hb : Denotes b v) (hrange : InRange 900 (u * v)) :
    ∃ w, IsRounded (u * v) w ∧ Denotes (a * b) w := by
  obtain ⟨m, e, hm, hunpack, hlow, rfl⟩ := ha
  obtain ⟨m', e', hm', hunpack', hlow', rfl⟩ := hb
  have hy : Locates (.ofMantissaAndAccuracy (m * m') .exact)
      (m * 2 ^ e * (m' * 2 ^ e') / 2 ^ (e + e')) := by
    have heq : (m * 2 ^ e * (m' * 2 ^ e') / 2 ^ (e + e') : ℚ) = (m * m' : ℕ) := by
      rw [zpow_add₀ two_ne_zero]
      push_cast
      field_simp
    rw [heq]
    exact .exact _
  have hM : 2 ^ 52 ≤ m * m' := hlow.trans (Nat.le_mul_of_pos_right m hm')
  obtain ⟨w, hw, hdenotes⟩ := denotes_roundWithAccuracy hM hy hrange
  refine ⟨w, hw, ?_⟩
  have hmul : a * b = ⟨.pack (roundWithAccuracy .binary64 .positive (m * m') (e + e') .exact)⟩ := by
    show (⟨.pack (UnpackedFloat.mul .binary64 a.toModel.unpack b.toModel.unpack)⟩ : Double) = _
    rw [hunpack, hunpack']
    rfl
  rwa [hmul]

/-- What is left of a division tells on which side of the middle the quotient lies. -/
theorem locates_div (n : ℕ) {d : ℕ} (hd : 0 < d) :
    Locates (.ofMantissaAndAccuracy (n / d) (accuracyOfFraction (n % d) d)) (n / d) := by
  have hd' : (0 : ℚ) < d := by exact_mod_cast hd
  have hlt : ((n % d : ℕ) : ℚ) < d := by exact_mod_cast Nat.mod_lt n hd
  have hsplit : (n : ℚ) / d = (n / d : ℕ) + (n % d : ℕ) / d := by
    rw [eq_comm, add_div_eq_mul_add_div _ _ hd'.ne']
    congr 1
    exact_mod_cast Nat.div_add_mod' n d
  rw [hsplit, accuracyOfFraction]
  generalize n / d = k
  generalize n % d = r at hlt
  split_ifs with hrest
  · rw [hrest, Nat.cast_zero, zero_div, add_zero]
    exact .exact k
  · have hpos : 0 < (r : ℚ) / d := div_pos (by exact_mod_cast Nat.pos_of_ne_zero hrest) hd'
    rcases hcompare : compare (2 * r) d with _ | _ | _
    · have hless : 2 * (r : ℚ) < d := by exact_mod_cast Nat.compare_eq_lt.mp hcompare
      have hhalf : (r : ℚ) / d < 1 / 2 := by rw [div_lt_iff₀ hd']; linarith
      show (k : ℚ) < k + r / d ∧ (k : ℚ) + r / d < k + 1 / 2
      exact ⟨by linarith, by linarith⟩
    · have hequal : 2 * (r : ℚ) = d := by exact_mod_cast Nat.compare_eq_eq.mp hcompare
      have hhalf : (r : ℚ) / d = 1 / 2 := by rw [div_eq_iff hd'.ne']; linarith
      rw [hhalf]
      rfl
    · have hmore : (d : ℚ) < 2 * r := by exact_mod_cast Nat.compare_eq_gt.mp hcompare
      have hhalf : 1 / 2 < (r : ℚ) / d := by rw [lt_div_iff₀ hd']; linarith
      have hone : (r : ℚ) / d < 1 := by rwa [div_lt_one hd']
      show (k : ℚ) + 1 / 2 < k + r / d ∧ (k : ℚ) + r / d < k + 1
      exact ⟨by linarith, by linarith⟩

/-- For two mantissas with a leading one, 53 more digits of the dividend are enough. -/
theorem divCore_eq {m m' : ℕ} {e e' : ℤ} (hm : m.log2 = 52) (hm' : m'.log2 = 52)
    (hmin : -1000 ≤ e - e') :
    divCore .binary64 m e m' e' =
      ((m <<< 53) / m', e - e' - 53, accuracyOfFraction ((m <<< 53) % m') m') := by
  have htarget : min (e - e')
      (Format.binary64.targetExponent (totalExponent m e - totalExponent m' e')) = e - e' - 53 := by
    rw [Format.targetExponent, totalExponent, totalExponent, hm, hm', minExponent_binary64,
      mantissaBits_binary64]
    omega
  rw [divCore, htarget, sub_sub_cancel]
  rfl

theorem Denotes.div (ha : Denotes a u) (hb : Denotes b v) (hrange : InRange 900 (u / v)) :
    ∃ w, IsRounded (u / v) w ∧ Denotes (a / b) w := by
  obtain ⟨m, e, hm, hunpack, hlow, rfl⟩ := ha
  obtain ⟨m', e', hm', hunpack', hlow', rfl⟩ := hb
  have hlt : m < 2 ^ 53 := (canonical_of_unpack (by decide) hunpack).lt
  have hlt' : m' < 2 ^ 53 := (canonical_of_unpack (by decide) hunpack').lt
  have hpos : (0 : ℚ) < m' := by exact_mod_cast hm'
  have hvalue : (m * 2 ^ e / (m' * 2 ^ e') : ℚ) = m / m' * 2 ^ (e - e') := by
    rw [zpow_sub₀ two_ne_zero]
    field_simp
  rw [hvalue] at hrange ⊢
  obtain ⟨n, hn⟩ : ∃ n, m <<< 53 = n := ⟨_, rfl⟩
  have hn' : n = m * 2 ^ 53 := by rw [← hn, Nat.shiftLeft_eq]
  have hy : Locates (.ofMantissaAndAccuracy (n / m') (accuracyOfFraction (n % m') m'))
      (m / m' * 2 ^ (e - e') / 2 ^ (e - e' - 53)) := by
    have heq : (m / m' * 2 ^ (e - e') / 2 ^ (e - e' - 53) : ℚ) = n / m' := by
      rw [mul_div_assoc, ← zpow_sub₀ two_ne_zero, sub_sub_cancel, div_mul_eq_mul_div, hn',
        Nat.cast_mul]
      norm_num
    rw [heq]
    exact locates_div n hm'
  have hM : 2 ^ 52 ≤ n / m' := by
    rw [hn', Nat.le_div_iff_mul_le hm']
    exact Nat.mul_le_mul hlow (Nat.le_of_lt hlt')
  obtain ⟨w, hw, hdenotes⟩ := denotes_roundWithAccuracy hM hy hrange
  refine ⟨w, hw, ?_⟩
  have hmin : -1000 ≤ e - e' := by
    have htwo : (m : ℚ) / m' < 2 := by
      rw [div_lt_iff₀ hpos]
      exact_mod_cast (by omega : m < 2 * m')
    have hsmall : (m / m' * 2 ^ (e - e') : ℚ) < 2 ^ (e - e' + 1) := by
      rw [zpow_add_one₀ two_ne_zero, mul_comm _ (2 : ℚ)]
      exact mul_lt_mul_of_pos_right htwo (by positivity)
    have := (zpow_lt_zpow_iff_right₀ (one_lt_two : (1 : ℚ) < 2)).mp (hrange.1.trans_lt hsmall)
    omega
  have hcore := divCore_eq ((Nat.log2_eq_iff hm.ne').mpr ⟨hlow, hlt⟩)
    ((Nat.log2_eq_iff hm'.ne').mpr ⟨hlow', hlt'⟩) hmin
  rw [hn] at hcore
  have hdiv : a / b = ⟨.pack (roundWithAccuracy .binary64 .positive (n / m') (e - e' - 53)
      (accuracyOfFraction (n % m') m'))⟩ := by
    show (⟨.pack (UnpackedFloat.div .binary64 a.toModel.unpack b.toModel.unpack)⟩ : Double) = _
    rw [hunpack, hunpack']
    simp only [UnpackedFloat.div, hcore]
    rfl
  rwa [hdiv]

end Seahorse.Binary
