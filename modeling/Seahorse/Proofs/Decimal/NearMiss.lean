import Seahorse.Proofs.Binary.Doubles
import Seahorse.Proofs.Decimal.Shortest

/-!
# Decimals that all but meet an end

The ends of the intervals of the numbers with exponent `q` are odd multiples of `2^(q-1)`. A multiple
of the least power of ten above `2^q` meets such an end or keeps a distance from it of more than one
part in `2^51`, with one exception for all exponents of single precision.

That is a question about one fraction for each exponent, the power of ten over the power of two: a
multiple of the numerator is near to a multiple of the denominator only along a good approximation
of the fraction. The approximation is looked for by division with remainder, and what is found is
checked; nothing needs to be known about the search.
-/

namespace Seahorse.Decimal

open Binary

/-! ## One approximation tells all near pairs -/

section Lattice

variable {A B : ℤ} {C M c n : ℤ}

/-- If `C · A` is near to `M · B`, and `c · A` near enough to `n · B`, then `M / C` is `n / c`. -/
theorem mul_eq_mul_of_near (hA : 0 < A) (hB : 0 < B) (hC : 0 < C) (hc : 0 ≤ c)
    (hnear : |M * B - C * A| * 2 ^ 51 ≤ C * A) (hle : C * A ≤ 2 ^ 25 * B)
    (hcert : c * A + |c * A - n * B| * 2 ^ 51 < 2 ^ 26 * A) : n * C = c * M := by
  have hidentity : B * (n * C - c * M) = -(c * (M * B - C * A)) - C * (c * A - n * B) := by ring
  have hbound : B * |n * C - c * M| ≤ c * |M * B - C * A| + C * |c * A - n * B| := by
    calc B * |n * C - c * M| = |B * (n * C - c * M)| := by rw [abs_mul, abs_of_pos hB]
      _ = |-(c * (M * B - C * A)) - C * (c * A - n * B)| := by rw [hidentity]
      _ ≤ |-(c * (M * B - C * A))| + |C * (c * A - n * B)| := abs_sub _ _
      _ = c * |M * B - C * A| + C * |c * A - n * B| := by
        rw [abs_neg, abs_mul, abs_mul, abs_of_nonneg hc, abs_of_pos hC]
  have hscaled : A * B * 2 ^ 51 * |n * C - c * M| < A * B * 2 ^ 51 * 1 := by
    calc A * B * 2 ^ 51 * |n * C - c * M| = A * 2 ^ 51 * (B * |n * C - c * M|) := by ring
      _ ≤ A * 2 ^ 51 * (c * |M * B - C * A| + C * |c * A - n * B|) :=
        mul_le_mul_of_nonneg_left hbound (by positivity)
      _ = A * c * (|M * B - C * A| * 2 ^ 51) + C * A * (|c * A - n * B| * 2 ^ 51) := by ring
      _ ≤ A * c * (C * A) + C * A * (|c * A - n * B| * 2 ^ 51) :=
        add_le_add_left (mul_le_mul_of_nonneg_left hnear (by positivity)) _
      _ = C * A * (c * A + |c * A - n * B| * 2 ^ 51) := by ring
      _ < C * A * (2 ^ 26 * A) := mul_lt_mul_of_pos_left hcert (by positivity)
      _ ≤ 2 ^ 25 * B * (2 ^ 26 * A) := mul_le_mul_of_nonneg_right hle (by positivity)
      _ = A * B * 2 ^ 51 * 1 := by ring
  have hlt : |n * C - c * M| < 1 := lt_of_mul_lt_mul_left hscaled (by positivity)
  exact sub_eq_zero.mp (Int.abs_lt_one_iff.mp hlt)

end Lattice

/-! ## The fraction of an exponent -/

/-- The exponent of the least power of ten not below `2^q`. -/
def leastPower (q : ℤ) : ℤ :=
  -(-q * 30103 / 100000)

/-- A power of ten that is not much below `2^q` is not below it. -/
theorem leastPower_le {q k : ℤ} (hmin : -149 ≤ q) (hmax : q ≤ 104)
    (h : (2 ^ 24 - 1) * 2 ^ q ≤ (2 : ℚ) ^ 24 * 10 ^ k) : leastPower q ≤ k := by
  have hall : ∀ q ∈ Finset.Icc (-149 : ℤ) 104,
      2 ^ 24 * (10 ^ (leastPower q - 1).toNat * 2 ^ (-q).toNat) <
        (2 ^ 24 - 1) * (2 ^ q.toNat * 10 ^ (-(leastPower q - 1)).toNat) := by
    decide +kernel
  have hlt : (2 : ℚ) ^ 24 * 10 ^ (leastPower q - 1) < (2 ^ 24 - 1) * 2 ^ q := by
    have hq := hall q (Finset.mem_Icc.mpr ⟨hmin, hmax⟩)
    rw [zpow_eq_toNat (by norm_num), zpow_eq_toNat (by norm_num : (2 : ℚ) ≠ 0), mul_div_assoc',
      mul_div_assoc', div_lt_div_iff₀ (by positivity) (by positivity), mul_assoc, mul_assoc]
    norm_num at hq ⊢
    exact_mod_cast hq
  have hpower : (10 : ℚ) ^ (leastPower q - 1) < 10 ^ k :=
    lt_of_mul_lt_mul_left (hlt.trans_le h) (by positivity)
  have := (zpow_lt_zpow_iff_right₀ (by norm_num : (1 : ℚ) < 10)).mp hpower
  omega

/-- The numerator of `10^(leastPower q) / 2^(q-1)`. -/
def tens (q : ℤ) : ℕ :=
  10 ^ (leastPower q).toNat * 2 ^ (-(q - 1)).toNat

/-- The denominator of `10^(leastPower q) / 2^(q-1)`. -/
def twos (q : ℤ) : ℕ :=
  2 ^ (q - 1).toNat * 10 ^ (-leastPower q).toNat

theorem tens_pos (q : ℤ) : 0 < tens q := by
  rw [tens]
  positivity

theorem twos_pos (q : ℤ) : 0 < twos q := by
  rw [twos]
  positivity

/-- Both powers are natural multiples of one unit. -/
theorem exists_unit (q : ℤ) :
    ∃ u : ℚ, 0 < u ∧ 10 ^ leastPower q = tens q * u ∧ 2 ^ (q - 1) = twos q * u := by
  refine ⟨1 / (10 ^ (-leastPower q).toNat * 2 ^ (-(q - 1)).toNat), by positivity, ?_, ?_⟩
  · rw [zpow_eq_toNat (by norm_num), tens]
    push_cast
    field_simp
  · rw [zpow_eq_toNat (by norm_num), twos]
    push_cast
    field_simp

/-- The last convergent `n / c` of a fraction with `c ≤ 2^25`, from two remainders of the division
and the two convergents before. -/
def convergent : ℕ → ℕ → ℕ → ℕ × ℕ → ℕ × ℕ → ℕ × ℕ
  | 0, _, _, _, last => last
  | fuel + 1, x, y, (n₀, c₀), (n₁, c₁) =>
    if y = 0 ∨ 2 ^ 25 < x / y * c₁ + c₀ then (n₁, c₁)
    else convergent fuel y (x % y) (n₁, c₁) (x / y * n₁ + n₀, x / y * c₁ + c₀)

/-- The approximation of the fraction of an exponent. -/
def approximation (q : ℤ) : ℕ × ℕ :=
  convergent 30 (tens q) (twos q) (0, 1) (1, 0)

/-- The one end that a decimal all but meets, `22841339 · 2^(-108)`. The decimal is
`7038531 · 10^(-32)`. -/
def Exceptional (q : ℤ) (M : ℕ) : Prop :=
  q = -107 ∧ M = 22841339

instance (q : ℤ) (M : ℕ) : Decidable (Exceptional q M) :=
  inferInstanceAs (Decidable (_ ∧ _))

/-- The approximation `n / c` is good enough to tell all near pairs. It is the fraction itself, or
not near, or gives no odd multiple in range, but for the one exception. -/
def Certified (q : ℤ) (n c : ℕ) : Prop :=
  0 < c ∧ Nat.Coprime c n ∧
    c * tens q + ((c * tens q : ℤ) - n * twos q).natAbs * 2 ^ 51 < 2 ^ 26 * tens q ∧
    (c * tens q = n * twos q ∨ c * tens q < ((c * tens q : ℤ) - n * twos q).natAbs * 2 ^ 51 ∨
      n % 2 = 0 ∨ 2 ^ 25 ≤ n ∨ Exceptional q n)

instance (q : ℤ) (n c : ℕ) : Decidable (Certified q n c) :=
  inferInstanceAs (Decidable (_ ∧ _))

theorem certified_approximation {q : ℤ} (hmin : -149 ≤ q) (hmax : q ≤ 104) :
    Certified q (approximation q).1 (approximation q).2 := by
  have hall : ∀ q ∈ Finset.Icc (-149 : ℤ) 104,
      Certified q (approximation q).1 (approximation q).2 := by
    decide +kernel
  exact hall q (Finset.mem_Icc.mpr ⟨hmin, hmax⟩)

/-- A good approximation leaves the near pairs that are equal, but for the one exception. -/
theorem Certified.eq_of_near {q : ℤ} {n c : ℕ} (h : Certified q n c) {C M : ℕ} (hpos : 0 < C)
    (hodd : M % 2 = 1) (hM : M < 2 ^ 25)
    (hnear : |(M * twos q - C * tens q : ℤ)| * 2 ^ 51 ≤ C * tens q)
    (hle : (C * tens q : ℤ) ≤ 2 ^ 25 * twos q) : C * tens q = M * twos q ∨ Exceptional q M := by
  obtain ⟨hc, hcoprime, hgood, hcases⟩ := h
  have hA := tens_pos q
  have hB := twos_pos q
  generalize tens q = A at *
  generalize twos q = B at *
  have hgood' : (c * A : ℤ) + |(c * A - n * B : ℤ)| * 2 ^ 51 < 2 ^ 26 * A := by
    rw [← Int.natCast_natAbs]
    exact_mod_cast hgood
  have hsame := mul_eq_mul_of_near (by exact_mod_cast hA) (by exact_mod_cast hB)
    (by exact_mod_cast hpos) (by omega) hnear hle hgood'
  -- The approximation is in lowest terms, so the pair is a multiple of it.
  obtain ⟨t, rfl⟩ : c ∣ C := by
    refine hcoprime.dvd_of_dvd_mul_left ⟨M, ?_⟩
    exact_mod_cast hsame
  obtain rfl : M = n * t := by
    refine Nat.eq_of_mul_eq_mul_left hc ?_
    rw [← mul_assoc, mul_comm c n, mul_assoc]
    exact_mod_cast hsame.symm
  have ht : 0 < t := Nat.pos_of_mul_pos_left hpos
  rcases hcases with hexact | hfar | heven | hlarge | ⟨hq, hn⟩
  · left
    rw [mul_right_comm, hexact, mul_right_comm]
  · have hfar' : (c * A : ℤ) < |(c * A - n * B : ℤ)| * 2 ^ 51 := by
      rw [← Int.natCast_natAbs]
      exact_mod_cast hfar
    have heq : ((n * t : ℕ) * B - (c * t : ℕ) * A : ℤ) = -(t * (c * A - n * B)) := by
      push_cast
      ring
    rw [heq, abs_neg, abs_mul, Nat.abs_cast] at hnear
    push_cast at hnear
    have hscaled := mul_lt_mul_of_pos_left hfar' (by exact_mod_cast ht : (0 : ℤ) < t)
    linarith
  · rw [Nat.mul_mod, heven, zero_mul] at hodd
    cases hodd
  · have := Nat.le_mul_of_pos_right n ht
    omega
  · have htwo : n * t < n * 2 := hM.trans_le (by rw [hn]; norm_num)
    have hone : t = 1 := Nat.le_antisymm (Nat.le_of_lt_succ (Nat.lt_of_mul_lt_mul_left htwo)) ht
    exact .inr ⟨hq, by rw [hone, mul_one, hn]⟩

/-- A multiple of the power of ten that is near to an odd multiple of `2^(q-1)` is equal to it, but
for the one exception. -/
theorem eq_of_near {q : ℤ} (hmin : -149 ≤ q) (hmax : q ≤ 104) {C M : ℕ} (hpos : 0 < C)
    (hodd : M % 2 = 1) (hM : M < 2 ^ 25)
    (hnear : Near 51 (C * 10 ^ leastPower q) (M * 2 ^ (q - 1)))
    (hle : (C : ℚ) * 10 ^ leastPower q ≤ 2 ^ 25 * 2 ^ (q - 1)) :
    (C : ℚ) * 10 ^ leastPower q = M * 2 ^ (q - 1) ∨ Exceptional q M := by
  obtain ⟨u, hu, hten, htwo⟩ := exists_unit q
  rw [hten, htwo] at hnear hle ⊢
  -- Without the unit all is about natural numbers.
  have hnear' : |(M * twos q - C * tens q : ℤ)| * 2 ^ 51 ≤ C * tens q := by
    have heq : (M * (twos q * u) - C * (tens q * u) : ℚ) = (M * twos q - C * tens q) * u := by ring
    rw [Near, heq, abs_mul, abs_of_pos hu, mul_right_comm, ← mul_assoc] at hnear
    exact_mod_cast le_of_mul_le_mul_right hnear hu
  have hle' : (C * tens q : ℤ) ≤ 2 ^ 25 * twos q := by
    rw [← mul_assoc, ← mul_assoc] at hle
    exact_mod_cast le_of_mul_le_mul_right hle hu
  have hcertified := certified_approximation hmin hmax
  refine (hcertified.eq_of_near hpos hodd hM hnear' hle').imp_left fun heq => ?_
  rw [← mul_assoc, ← mul_assoc]
  congr 1
  exact_mod_cast heq

/-! ## Decimals that are binary numbers -/

theorem le_of_five_pow_dvd {p x b : ℕ} (h : 5 ^ p ∣ x * 2 ^ b) (hpos : 0 < x) (hlt : x < 2 ^ 30) :
    p ≤ 22 := by
  have hcoprime : Nat.Coprime (5 ^ p) (2 ^ b) := Nat.Coprime.pow p b (by decide)
  have hle : 5 ^ p ≤ x := Nat.le_of_dvd hpos (hcoprime.dvd_of_dvd_mul_right h)
  by_contra hp
  have hlarge : 5 ^ 23 ≤ 5 ^ p := Nat.pow_le_pow_right (by norm_num) (by omega)
  norm_num at hlarge hlt
  omega

/-- A decimal and a binary number that are equal and short have a small power of ten. -/
theorem natAbs_le_of_eq {c M : ℕ} {k j : ℤ} (hc : 0 < c) (hc' : c < 2 ^ 30) (hM : 0 < M)
    (hM' : M < 2 ^ 30) (h : (c : ℚ) * 10 ^ k = M * 2 ^ j) : k.natAbs ≤ 22 := by
  rw [zpow_eq_toNat (by norm_num), zpow_eq_toNat (by norm_num : (2 : ℚ) ≠ 0), mul_div_assoc',
    mul_div_assoc', div_eq_div_iff (by positivity) (by positivity)] at h
  have heq : c * 10 ^ k.toNat * 2 ^ (-j).toNat = M * 2 ^ j.toNat * 10 ^ (-k).toNat := by
    exact_mod_cast h
  have hten (p : ℕ) : 10 ^ p = 5 ^ p * 2 ^ p := mul_pow 5 2 p
  rcases le_total 0 k with hk | hk
  · rw [show (-k).toNat = 0 by omega, pow_zero, mul_one, hten] at heq
    have hdvd : 5 ^ k.toNat ∣ M * 2 ^ j.toNat :=
      ⟨c * 2 ^ k.toNat * 2 ^ (-j).toNat, by rw [← heq]; ring⟩
    have := le_of_five_pow_dvd hdvd hM hM'
    omega
  · rw [show k.toNat = 0 by omega, pow_zero, mul_one, hten] at heq
    have hdvd : 5 ^ (-k).toNat ∣ c * 2 ^ (-j).toNat :=
      ⟨M * 2 ^ j.toNat * 2 ^ (-k).toNat, by rw [heq]; ring⟩
    have := le_of_five_pow_dvd hdvd hc hc'
    omega

end Seahorse.Decimal
