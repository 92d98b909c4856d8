import Mathlib.Algebra.Order.Field.Power
import Mathlib.Data.Int.Interval
import Mathlib.Data.Rat.Cast.Order
import Mathlib.Tactic.FieldSimp
import Mathlib.Tactic.Linarith
import Mathlib.Tactic.Positivity
import Mathlib.Tactic.Ring
import Seahorse.Decimal.Shortest

/-!
# Where the shortest decimal lies

The interval of a binary number and the multiples of a power of ten in it, in rationals. A multiple
that is found lies in the interval and is the nearest to the middle, unless the nearer one on the
other side lies outside. Where none is found, the power of ten is larger than the lower part of the
interval; so the scan always comes to one, and at a power of ten that is not much smaller.
-/

namespace Seahorse.Decimal

theorem zpow_eq_toNat {x : ℚ} (hx : x ≠ 0) (k : ℤ) : x ^ k = x ^ k.toNat / x ^ (-k).toNat := by
  rw [← zpow_natCast, ← zpow_natCast, ← zpow_sub₀ hx]
  congr 1
  omega

/-- A power of ten and a power of two are compared as natural numbers. -/
theorem ten_zpow_le_two_zpow_iff {a b : ℤ} :
    (10 : ℚ) ^ a ≤ 2 ^ b ↔ 10 ^ a.toNat * 2 ^ (-b).toNat ≤ 2 ^ b.toNat * 10 ^ (-a).toNat := by
  rw [zpow_eq_toNat (by norm_num), zpow_eq_toNat (by norm_num),
    div_le_div_iff₀ (by positivity) (by positivity)]
  exact_mod_cast Iff.rfl

theorem two_zpow_le_ten_zpow_iff {a b : ℤ} :
    (2 : ℚ) ^ b ≤ 10 ^ a ↔ 2 ^ b.toNat * 10 ^ (-a).toNat ≤ 10 ^ a.toNat * 2 ^ (-b).toNat := by
  rw [zpow_eq_toNat (by norm_num), zpow_eq_toNat (by norm_num),
    div_le_div_iff₀ (by positivity) (by positivity)]
  exact_mod_cast Iff.rfl

namespace Interval

/-! ## Ends -/

section Ends

variable (i : Interval)

/-- The number in the middle. -/
def center : ℚ := i.middle / i.denominator

/-- The lower end. -/
def lower : ℚ := i.low / i.denominator

/-- The upper end. -/
def upper : ℚ := i.high / i.denominator

/-- The number lies in the interval. -/
def Contains (y : ℚ) : Prop :=
  if i.closed then i.lower ≤ y ∧ y ≤ i.upper else i.lower < y ∧ y < i.upper

end Ends

section Contains

variable {i : Interval} {y : ℚ}

theorem Contains.le (h : i.Contains y) : i.lower ≤ y := by
  rw [Contains] at h
  split_ifs at h
  · exact h.1
  · exact h.1.le

theorem Contains.ge (h : i.Contains y) : y ≤ i.upper := by
  rw [Contains] at h
  split_ifs at h
  · exact h.2
  · exact h.2.le

theorem contains_of_lt (hlow : i.lower < y) (hhigh : y < i.upper) : i.Contains y := by
  rw [Contains]
  split_ifs
  · exact ⟨hlow.le, hhigh.le⟩
  · exact ⟨hlow, hhigh⟩

theorem le_or_ge_of_not_contains (h : ¬ i.Contains y) : y ≤ i.lower ∨ i.upper ≤ y := by
  by_contra hnot
  obtain ⟨hlow, hhigh⟩ := not_or.mp hnot
  exact h (contains_of_lt (not_le.mp hlow) (not_le.mp hhigh))

end Contains

/-! ## Multiples of a power of ten -/

variable {i : Interval} {k : ℤ} {c : ℕ}

/-- Numerators are compared after both sides are brought to a common denominator. -/
theorem le_unit_iff (hden : 0 < i.denominator) (a : ℕ) (k : ℤ) (c : ℕ) :
    a * tenPow (-k).toNat ≤ c * (i.denominator * tenPow k.toNat) ↔
      (a / i.denominator : ℚ) ≤ c * 10 ^ k := by
  have hden' : (0 : ℚ) < i.denominator := by exact_mod_cast hden
  rw [zpow_eq_toNat (by norm_num), mul_div_assoc', div_le_div_iff₀ hden' (by positivity), mul_assoc,
    mul_comm ((10 : ℚ) ^ k.toNat)]
  exact_mod_cast Iff.rfl

theorem unit_le_iff (hden : 0 < i.denominator) (a : ℕ) (k : ℤ) (c : ℕ) :
    c * (i.denominator * tenPow k.toNat) ≤ a * tenPow (-k).toNat ↔
      c * 10 ^ k ≤ (a / i.denominator : ℚ) := by
  have hden' : (0 : ℚ) < i.denominator := by exact_mod_cast hden
  rw [zpow_eq_toNat (by norm_num), mul_div_assoc', div_le_div_iff₀ (by positivity) hden', mul_assoc,
    mul_comm ((10 : ℚ) ^ k.toNat)]
  exact_mod_cast Iff.rfl

/-- Whether a multiple is tested to lie in the interval. -/
def inside (i : Interval) (k : ℤ) (c : ℕ) : Bool :=
  if i.closed then
    i.low * tenPow (-k).toNat ≤ c * (i.denominator * tenPow k.toNat) &&
      c * (i.denominator * tenPow k.toNat) ≤ i.high * tenPow (-k).toNat
  else
    i.low * tenPow (-k).toNat < c * (i.denominator * tenPow k.toNat) &&
      c * (i.denominator * tenPow k.toNat) < i.high * tenPow (-k).toNat

theorem inside_iff (hden : 0 < i.denominator) : i.inside k c = true ↔ i.Contains (c * 10 ^ k) := by
  rw [inside, Contains]
  split_ifs
  · rw [Bool.and_eq_true_iff, decide_eq_true_eq, decide_eq_true_eq, le_unit_iff hden,
      unit_le_iff hden]
    rfl
  · rw [Bool.and_eq_true_iff, decide_eq_true_eq, decide_eq_true_eq, ← Nat.not_le, ← Nat.not_le,
      le_unit_iff hden, unit_le_iff hden, not_le, not_le]
    rfl

/-- The multiple next below the middle. -/
def below (i : Interval) (k : ℤ) : ℕ :=
  i.middle * tenPow (-k).toNat / (i.denominator * tenPow k.toNat)

theorem unit_pos (hden : 0 < i.denominator) (k : ℤ) : 0 < i.denominator * tenPow k.toNat :=
  Nat.mul_pos hden (Nat.pow_pos (by norm_num))

theorem below_le (hden : 0 < i.denominator) (k : ℤ) : i.below k * 10 ^ k ≤ i.center := by
  exact (unit_le_iff hden i.middle k _).mp (Nat.div_mul_le_self _ _)

theorem lt_below_succ (hden : 0 < i.denominator) (k : ℤ) :
    i.center < (i.below k + 1 : ℕ) * 10 ^ k := by
  rw [center, ← not_le, ← unit_le_iff hden, Nat.not_le, Nat.mul_comm (i.below k + 1)]
  exact Nat.lt_mul_div_succ _ (unit_pos hden k)

/-- The rest tells which of the two multiples next to the middle is the nearer one. -/
theorem rest_le_iff (hden : 0 < i.denominator) (k : ℤ) :
    2 * (i.middle * tenPow (-k).toNat % (i.denominator * tenPow k.toNat)) ≤
        i.denominator * tenPow k.toNat ↔
      2 * i.center ≤ (2 * i.below k + 1) * 10 ^ k := by
  have hsplit := Nat.div_add_mod (i.middle * tenPow (-k).toNat) (i.denominator * tenPow k.toNat)
  have hiff := le_unit_iff hden (2 * i.middle) k (2 * i.below k + 1)
  rw [Nat.cast_mul, mul_div_assoc] at hiff
  push_cast at hiff
  rw [center, ← hiff, below]
  generalize i.denominator * tenPow k.toNat = unit at *
  constructor <;> intro h <;> linarith

theorem le_rest_iff (hden : 0 < i.denominator) (k : ℤ) :
    i.denominator * tenPow k.toNat ≤
        2 * (i.middle * tenPow (-k).toNat % (i.denominator * tenPow k.toNat)) ↔
      (2 * i.below k + 1) * 10 ^ k ≤ 2 * i.center := by
  have hsplit := Nat.div_add_mod (i.middle * tenPow (-k).toNat) (i.denominator * tenPow k.toNat)
  have hiff := unit_le_iff hden (2 * i.middle) k (2 * i.below k + 1)
  rw [Nat.cast_mul, mul_div_assoc] at hiff
  push_cast at hiff
  rw [center, ← hiff, below]
  generalize i.denominator * tenPow k.toNat = unit at *
  constructor <;> intro h <;> linarith

/-- A multiple that is found lies in the interval. It is the nearest to the middle, unless the one
on the other side of the middle lies outside. -/
theorem contains_of_multiple? (hden : 0 < i.denominator) (h : i.multiple? k = some c) :
    i.Contains (c * 10 ^ k) ∧
      (2 * |c * 10 ^ k - i.center| ≤ 10 ^ k ∨
        (i.center < c * 10 ^ k ∧ ¬ i.Contains ((c - 1) * 10 ^ k)) ∨
        (c * 10 ^ k ≤ i.center ∧ ¬ i.Contains ((c + 1) * 10 ^ k))) := by
  have hle := below_le hden k
  have hlt := lt_below_succ hden k
  have hin (c : ℕ) := inside_iff (c := c) (k := k) hden
  have hout (c : ℕ) (h : i.inside k c = false) : ¬ i.Contains (c * 10 ^ k) := by
    rw [← hin, h]
    exact Bool.false_ne_true
  simp only [multiple?] at h
  split at h
  · cases h
  · rename_i hb ha
    obtain rfl : i.below k = c := Option.some.inj h
    refine ⟨(hin _).mp hb, .inr (.inr ⟨hle, ?_⟩)⟩
    exact_mod_cast hout _ ha
  · rename_i hb ha
    obtain rfl : i.below k + 1 = c := Option.some.inj h
    refine ⟨(hin _).mp ha, .inr (.inl ⟨hlt, ?_⟩)⟩
    rw [Nat.cast_succ, add_sub_cancel_right]
    exact hout _ hb
  · rename_i hb ha
    split_ifs at h with hless
    · obtain rfl : i.below k = c := Option.some.inj h
      refine ⟨(hin _).mp hb, .inl ?_⟩
      have hrest := (rest_le_iff hden k).mp (by omega)
      rw [abs_sub_comm, abs_of_nonneg (by linarith)]
      linarith
    · obtain rfl : i.below k + 1 = c := Option.some.inj h
      refine ⟨(hin _).mp ha, .inl ?_⟩
      have hrest := (le_rest_iff hden k).mp (by omega)
      rw [abs_of_pos (by linarith)]
      push_cast
      linarith

/-- Where no multiple is found, the power of ten is too large for the lower part of the interval. -/
theorem lt_of_multiple?_eq_none (hden : 0 < i.denominator) (hhigh : i.center < i.upper)
    (h : i.multiple? k = none) : i.center - i.lower < 10 ^ k := by
  by_contra hge
  have hle := below_le hden k
  have hlt := lt_below_succ hden k
  push_cast at hlt
  have hlower : i.lower < i.below k * 10 ^ k := by linarith
  have hupper : i.below k * 10 ^ k < i.upper := by linarith
  have hin : i.inside k (i.below k) = true :=
    (inside_iff hden).mpr (contains_of_lt hlower hupper)
  simp only [multiple?] at h
  split at h
  · rename_i hout _
    exact Bool.false_ne_true (hout.symm.trans hin)
  · cases h
  · cases h
  · split_ifs at h

/-! ## The scan -/

/-- The scan comes to a hit if there is one within its length, and there was none before. -/
theorem scan_eq {count : ℕ} {top : ℤ} (h : ∃ j < count, (i.multiple? (top - j)).isSome) :
    ∃ c k, i.scan count top = ⟨c, k⟩ ∧ i.multiple? k = some c ∧ k ≤ top ∧
      (k = top ∨ i.multiple? (k + 1) = none) := by
  induction count generalizing top with
  | zero =>
    obtain ⟨j, hj, -⟩ := h
    omega
  | succ count ih =>
    rw [scan]
    cases hmultiple : i.multiple? top with
    | some c => exact ⟨c, top, rfl, hmultiple, le_rfl, .inl rfl⟩
    | none =>
      obtain ⟨j, hj, hhit⟩ := h
      obtain ⟨j, rfl⟩ : ∃ l, j = l + 1 := by
        refine Nat.exists_eq_succ_of_ne_zero ?_
        rintro rfl
        simp [hmultiple] at hhit
      have hrest : ∃ j < count, (i.multiple? (top - 1 - j)).isSome :=
        ⟨j, by omega, by rwa [sub_sub, add_comm 1, ← Nat.cast_succ]⟩
      obtain ⟨c, k, hscan, hk, hle, hprev⟩ := ih hrest
      refine ⟨c, k, hscan, hk, by omega, .inr ?_⟩
      rcases hprev with rfl | hprev
      · rwa [sub_add_cancel]
      · exact hprev

/-! ## The interval of a binary number -/

section Around

variable (m : ℕ) (q : ℤ) (dense : Bool)

theorem denominator_around_pos : 0 < (around m q dense).denominator := by
  rw [around, Nat.one_shiftLeft]
  exact Nat.two_pow_pos _

theorem numerator_div_denominator (a : ℕ) :
    ((a <<< (q - 2).toNat : ℕ) : ℚ) / (1 <<< (2 - q).toNat : ℕ) = a * 2 ^ (q - 2) := by
  rw [Nat.shiftLeft_eq, Nat.one_shiftLeft, zpow_eq_toNat two_ne_zero, neg_sub, mul_div_assoc']
  push_cast
  rfl

theorem center_around : (around m q dense).center = m * 2 ^ q := by
  rw [center, around, numerator_div_denominator, zpow_sub₀ two_ne_zero]
  push_cast
  ring

theorem upper_around : (around m q dense).upper = (2 * m + 1) * 2 ^ (q - 1) := by
  rw [upper, around, numerator_div_denominator, zpow_sub₀ two_ne_zero, zpow_sub₀ two_ne_zero]
  push_cast
  ring

variable {m}

theorem lower_around (hm : 0 < m) : (around m q false).lower = (2 * m - 1) * 2 ^ (q - 1) := by
  rw [lower, around, numerator_div_denominator, zpow_sub₀ two_ne_zero, zpow_sub₀ two_ne_zero]
  push_cast [show 2 ≤ 4 * m by omega]
  ring

theorem lower_around_dense (hm : 0 < m) : (around m q true).lower = (4 * m - 1) * 2 ^ (q - 2) := by
  rw [lower, around, numerator_div_denominator, if_pos rfl, Nat.cast_sub (by omega)]
  push_cast
  rfl

theorem center_lt_upper : (around m q dense).center < (around m q dense).upper := by
  rw [center_around, upper_around, zpow_sub_one₀ two_ne_zero]
  have hpos : (0 : ℚ) < 2 ^ q := by positivity
  linarith

/-- The ends belong to the interval of a number with an even mantissa only. -/
theorem Contains.even {q : ℤ} {dense : Bool} {y : ℚ} (h : (around m q dense).Contains y)
    (hend : y = (around m q dense).lower ∨ y = (around m q dense).upper) : m % 2 = 0 := by
  rw [Contains] at h
  split_ifs at h with hclosed
  · exact of_decide_eq_true hclosed
  · rcases hend with rfl | rfl
    · exact absurd h.1 (lt_irrefl _)
    · exact absurd h.2 (lt_irrefl _)

/-- The lower part of the interval is at least a quarter of a unit. -/
theorem le_center_sub_lower (hm : 0 < m) :
    2 ^ (q - 2) ≤ (around m q dense).center - (around m q dense).lower := by
  have hpos : (0 : ℚ) < 2 ^ (q - 2) := by positivity
  have hunit : (2 : ℚ) ^ q = 2 ^ (q - 2) * 4 := by
    rw [zpow_sub₀ two_ne_zero]
    norm_num
  have hhalf : (2 : ℚ) ^ (q - 1) = 2 ^ (q - 2) * 2 := by
    rw [zpow_sub₀ two_ne_zero, zpow_sub₀ two_ne_zero]
    norm_num
    ring
  cases dense
  · rw [center_around, lower_around q hm, hunit, hhalf]
    linarith
  · rw [center_around, lower_around_dense q hm, hunit]
    linarith

end Around

end Interval

/-! ## The shortest decimal -/

/-- The power of ten at which the scan of a number below `2^e` starts. -/
def scanTop (e : ℤ) : ℤ :=
  e * 30103 / 100000 + 1

/-- For a single-precision number the scan starts above the last digit and ends far below. -/
theorem scanTop_bounds {e : ℤ} (hmin : -148 ≤ e) (hmax : e ≤ 128) :
    (10 : ℚ) ^ (scanTop e - 19) ≤ 2 ^ (e - 26) ∧ (2 : ℚ) ^ e ≤ 10 ^ (scanTop e + 1) := by
  rw [ten_zpow_le_two_zpow_iff, two_zpow_le_ten_zpow_iff]
  have hall : ∀ e ∈ Finset.Icc (-148 : ℤ) 128,
      10 ^ (scanTop e - 19).toNat * 2 ^ (-(e - 26)).toNat ≤
          2 ^ (e - 26).toNat * 10 ^ (-(scanTop e - 19)).toNat ∧
        2 ^ e.toNat * 10 ^ (-(scanTop e + 1)).toNat ≤
          10 ^ (scanTop e + 1).toNat * 2 ^ (-e).toNat := by
    decide +kernel
  exact hall e (Finset.mem_Icc.mpr ⟨hmin, hmax⟩)

variable {m : ℕ} {q : ℤ}

/-- The decimal `c · 10^k` was found for the scalar `m · 2^q`, and the power of ten is not much smaller
than the last binary digit. -/
structure IsFound (m : ℕ) (q : ℤ) (dense : Bool) (c : ℕ) (k : ℤ) : Prop where
  pos : 0 < m
  lt : m < 2 ^ 24
  min_le : -149 ≤ q
  le_max : q ≤ 104
  hit : (Interval.around m q dense).multiple? k = some c
  power : (2 : ℚ) ^ (q - 2) ≤ 10 ^ (k + 1)

theorem shortest_eq (hm : 0 < m) (hlt : m < 2 ^ 24) (hmin : -149 ≤ q) (hmax : q ≤ 104)
    (dense : Bool) : ∃ c k, shortest m q dense = ⟨c, k⟩ ∧ IsFound m q dense c k := by
  have hden := Interval.denominator_around_pos m q dense
  have hlog : m.log2 < 24 := (Nat.log2_lt hm.ne').mpr hlt
  have hpart := Interval.le_center_sub_lower q dense hm
  have hupper := Interval.center_lt_upper (m := m) q dense
  obtain ⟨hlast, hfirst⟩ := scanTop_bounds (e := q + m.log2 + 1) (by omega) (by omega)
  have hhit : ∃ j < scanLength,
      ((Interval.around m q dense).multiple? (scanTop (q + m.log2 + 1) - j)).isSome := by
    refine ⟨19, by decide, ?_⟩
    by_contra hnone
    have hlt := Interval.lt_of_multiple?_eq_none hden hupper
      (Option.not_isSome_iff_eq_none.mp hnone)
    have hle : (2 : ℚ) ^ (q + m.log2 + 1 - 26) ≤ 2 ^ (q - 2) :=
      zpow_le_zpow_right₀ one_le_two (by omega)
    exact absurd hlt (not_lt.mpr ((hlast.trans hle).trans hpart))
  obtain ⟨c, k, hscan, hk, -, hprev⟩ := Interval.scan_eq hhit
  refine ⟨c, k, hscan, hm, hlt, hmin, hmax, hk, ?_⟩
  rcases hprev with rfl | hnone
  · exact (zpow_le_zpow_right₀ one_le_two (by omega)).trans hfirst
  · exact hpart.trans (Interval.lt_of_multiple?_eq_none hden hupper hnone).le

end Seahorse.Decimal
