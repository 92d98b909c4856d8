import Seahorse.Proofs.Decimal.NearMiss
import Seahorse.Proofs.Json.Scaling

/-!
# Every finite scalar reads back

The shortest decimal of a scalar lies in the interval of the reals that are rounded to the scalar.
It is read through a double, which may differ from the decimal by a few units of its last place, and
rounded to a scalar from there. The double still lies in the interval: the decimal keeps a larger
distance from the ends, or it is an end and then it is a double itself. There is one decimal that
does neither, and for the two scalars next to it the reading is carried out.
-/

namespace Seahorse

open Binary Decimal
open Float.Model (Format UnpackedFloat)
open Float.Model.UnpackedFloat

/-! ## Rounding within the interval -/

namespace Decimal.Interval

/-- A number at most half a unit away is rounded to the middle. -/
theorem Contains.isNearest {m : ℕ} {q : ℤ} {dense : Bool} {y : ℚ}
    (h : (around m q dense).Contains y) (hlow : (2 * m - 1) * 2 ^ (q - 1) ≤ y)
    (heven : y = (2 * m - 1) * 2 ^ (q - 1) → m % 2 = 0) : IsNearest (y / 2 ^ q) m := by
  have hpos : (0 : ℚ) < 2 ^ (q - 1) := by positivity
  have hunit : (2 : ℚ) ^ q = 2 ^ (q - 1) * 2 := by
    rw [zpow_sub_one₀ two_ne_zero]
    ring
  have hhigh := h.ge
  have heven' (hend : y = (2 * m + 1) * 2 ^ (q - 1)) : m % 2 = 0 :=
    h.even (.inr (by rw [upper_around, hend]))
  rw [upper_around] at hhigh
  have hscaled : y / 2 ^ q - m = (y / 2 ^ (q - 1) - 2 * m) / 2 := by
    rw [hunit]
    field_simp
  rw [← le_div_iff₀ hpos] at hlow
  rw [← div_le_iff₀ hpos] at hhigh
  constructor
  · rw [hscaled, abs_le]
    constructor <;> linarith
  · rw [hscaled, abs_eq (by norm_num)]
    rintro (heq | heq)
    · refine heven' ((div_eq_iff hpos.ne').mp ?_)
      linarith
    · refine heven ((div_eq_iff hpos.ne').mp ?_)
      linarith

end Decimal.Interval

section Round

variable {m : ℕ} {q : ℤ} {M : ℕ} {E : ℤ}

theorem lt_of_contains (h : m < 2 ^ 24) {dense : Bool} {y : ℚ}
    (hin : (Interval.around m q dense).Contains y) : y < 2 ^ (q + 24) := by
  have hle := hin.ge
  rw [Interval.upper_around] at hle
  have hm : (m : ℚ) + 1 ≤ 2 ^ 24 := by exact_mod_cast h
  have hpos : (0 : ℚ) < 2 ^ (q - 1) := by positivity
  rw [two_zpow_eq (by omega : q + 24 = q - 1 + (25 : ℕ))]
  exact hle.trans_lt (mul_lt_mul_of_pos_right (by linarith) hpos)

theorem round_eq_of_isNearest (h : Canonical .binary32 m q) (hm : 0 < m) (hM : 0 < M)
    (hlow : q = -149 ∨ 2 ^ (q + 23) ≤ (M * 2 ^ E : ℚ)) (hhigh : (M * 2 ^ E : ℚ) < 2 ^ (q + 24))
    (hn : IsNearest (M * 2 ^ E / 2 ^ q) m) (s : Sign) :
    UnpackedFloat.round .binary32 s M E = .finite s m q hm := by
  have hlow' : q = Format.binary32.minExponent ∨
      2 ^ (q + Format.binary32.mantissaBits - 1) ≤ (M * 2 ^ E : ℚ) := by
    rwa [show q + Format.binary32.mantissaBits - 1 = q + 23 by rw [mantissaBits_binary32]; omega]
  rw [round_eq_rounded .binary32 s hM h.min_le hlow' hhigh hn, rounded_of_lt _ _ hm h.lt]

/-- Below the least number with a leading one there is half the unit, and the number before is a
quarter of a unit away. -/
theorem round_eq_of_lt_power (hmin : -149 < q) (hM : 0 < M)
    (hlow : (2 ^ 25 - 1) * 2 ^ (q - 2) ≤ (M * 2 ^ E : ℚ))
    (hhigh : (M * 2 ^ E : ℚ) < 2 ^ (q + 23)) (s : Sign) :
    UnpackedFloat.round .binary32 s M E = .finite s (2 ^ 23) q (Nat.two_pow_pos 23) := by
  have hpos : (0 : ℚ) < 2 ^ (q - 2) := by positivity
  have hhalf : (2 : ℚ) ^ (q - 1) = 2 * 2 ^ (q - 2) := by
    rw [two_zpow_eq (by omega : q - 1 = q - 2 + (1 : ℕ)), pow_one]
  have hnearest : IsNearest (M * 2 ^ E / 2 ^ (q - 1)) (2 ^ 24) := by
    rw [two_zpow_eq (by omega : q + 23 = q - 2 + (25 : ℕ))] at hhigh
    have hlow' : (2 ^ 25 - 1) / 2 ≤ (M * 2 ^ E / 2 ^ (q - 1) : ℚ) := by
      rw [hhalf, le_div_iff₀ (by positivity)]
      linarith
    have hhigh' : (M * 2 ^ E / 2 ^ (q - 1) : ℚ) < 2 ^ 24 := by
      rw [hhalf, div_lt_iff₀ (by positivity)]
      linarith
    refine ⟨?_, fun _ => by norm_num⟩
    push_cast
    rw [abs_le]
    constructor <;> linarith
  have hsize : (2 : ℚ) ^ (q - 1 + Format.binary32.mantissaBits - 1) ≤ M * 2 ^ E := by
    rw [mantissaBits_binary32, two_zpow_eq (by omega : q - 1 + (24 : ℕ) - 1 = q - 2 + (24 : ℕ))]
    linarith
  have hsize' : (M * 2 ^ E : ℚ) < 2 ^ (q - 1 + Format.binary32.mantissaBits) := by
    rwa [show q - 1 + Format.binary32.mantissaBits = q + 23 by rw [mantissaBits_binary32]; omega]
  have hround :=
    round_eq_rounded .binary32 s hM (Int.le_sub_one_of_lt hmin) (.inr hsize) hsize' hnearest
  have hcarry := rounded_two_pow .binary32 s (q - 1)
  rw [sub_add_cancel] at hcarry
  exact hround.trans hcarry

theorem isDense_iff : isDense .binary32 m q = true ↔ m = 2 ^ 23 ∧ -149 < q := by
  rw [isDense, Bool.and_eq_true_iff, beq_iff_eq, decide_eq_true_eq]
  rfl

/-- What lies in the interval of a scalar is rounded to the scalar. -/
theorem round_eq_of_contains (h : Canonical .binary32 m q) (hm : 0 < m) (hM : 0 < M)
    (hin : (Interval.around m q (isDense .binary32 m q)).Contains (M * 2 ^ E)) (s : Sign) :
    UnpackedFloat.round .binary32 s M E = .finite s m q hm := by
  have hhigh := lt_of_contains h.lt hin
  have hmin : -149 ≤ q := h.min_le
  cases hdense : isDense .binary32 m q with
  | false =>
    rw [hdense] at hin
    have hle := hin.le
    rw [Interval.lower_around q hm] at hle
    refine round_eq_of_isNearest h hm hM ?_ hhigh (hin.isNearest hle fun heq => ?_) s
    · rcases hmin.eq_or_lt with heq | hlt
      · exact .inl heq.symm
      · right
        have hlead : 2 ^ 23 ≤ m := h.leading.resolve_right hlt.ne'
        have hne : m ≠ 2 ^ 23 := fun heq => by simp [isDense_iff.mpr ⟨heq, hlt⟩] at hdense
        have hgt : (2 ^ 23 + 1 : ℚ) ≤ m := by
          exact_mod_cast Nat.lt_of_le_of_ne hlead (Ne.symm hne)
        have hpos : (0 : ℚ) < 2 ^ (q - 1) := by positivity
        rw [two_zpow_eq (by omega : q + 23 = q - 1 + (24 : ℕ))]
        exact le_trans (mul_le_mul_of_nonneg_right (by linarith) hpos.le) hle
    · exact hin.even (.inl (by rw [Interval.lower_around q hm, heq]))
  | true =>
    rw [hdense] at hin
    obtain ⟨rfl, hlt⟩ := isDense_iff.mp hdense
    rcases lt_or_ge (M * 2 ^ E : ℚ) (2 ^ (q + 23)) with hsmall | hlarge
    · refine round_eq_of_lt_power hlt hM ?_ hsmall s
      have hle := hin.le
      rw [Interval.lower_around_dense q hm] at hle
      push_cast at hle
      norm_num at hle ⊢
      exact hle
    · refine round_eq_of_isNearest h hm hM (.inr hlarge) hhigh (hin.isNearest ?_ fun _ => rfl) s
      have hpos : (0 : ℚ) < 2 ^ (q - 1) := by positivity
      rw [two_zpow_eq (by omega : q + 23 = q - 1 + (24 : ℕ))] at hlarge
      push_cast
      linarith

end Round

/-! ## Near an end -/

section NearEnd

variable {m : ℕ} {q : ℤ} {dense : Bool} {c : ℕ} {k : ℤ}

namespace Decimal.IsFound

theorem contains (h : IsFound m q dense c k) :
    (Interval.around m q dense).Contains (c * 10 ^ k) :=
  (Interval.contains_of_multiple? (Interval.denominator_around_pos m q dense) h.hit).1

theorem value_lt (h : IsFound m q dense c k) : (c : ℚ) * 10 ^ k < 2 ^ (q + 24) :=
  lt_of_contains h.lt h.contains

theorem significand_pos (h : IsFound m q dense c k) : 0 < c := by
  have hone : (1 : ℚ) ≤ m := by exact_mod_cast h.pos
  have hlower : 0 < (Interval.around m q dense).lower := by
    cases dense
    · rw [Interval.lower_around q h.pos]
      exact mul_pos (by linarith) (by positivity)
    · rw [Interval.lower_around_dense q h.pos]
      exact mul_pos (by linarith) (by positivity)
  rcases Nat.eq_zero_or_pos c with rfl | hpos
  · have hlow := h.contains.le
    rw [Nat.cast_zero, zero_mul] at hlow
    exact absurd (hlower.trans_le hlow) (lt_irrefl _)
  · exact hpos

theorem significand_lt (h : IsFound m q dense c k) : c < 2 ^ 30 := by
  have hhigh := h.value_lt
  have hpower := h.power
  rw [two_zpow_eq (by omega : q + 24 = q - 2 + (26 : ℕ))] at hhigh
  rw [zpow_add_one₀ (by norm_num)] at hpower
  have hT : (0 : ℚ) < 10 ^ k := by positivity
  have hlt : (c : ℚ) * 10 ^ k < 2 ^ 30 * 10 ^ k := by linarith
  exact_mod_cast lt_of_mul_lt_mul_right hlt hT.le

theorem natAbs_le (h : IsFound m q dense c k) : k.natAbs ≤ 64 := by
  have hmin := h.min_le
  have hmax := h.le_max
  have hsmall : (10 : ℚ) ^ (-46 : ℤ) ≤ 10 ^ (k + 1) :=
    calc (10 : ℚ) ^ (-46 : ℤ) ≤ 2 ^ (-151 : ℤ) := by norm_num
      _ ≤ 2 ^ (q - 2) := zpow_le_zpow_right₀ one_le_two (by omega)
      _ ≤ 10 ^ (k + 1) := h.power
  have hlarge : (10 : ℚ) ^ k < 10 ^ (39 : ℤ) := by
    have hone : (1 : ℚ) ≤ c := by exact_mod_cast h.significand_pos
    calc (10 : ℚ) ^ k ≤ c * 10 ^ k := le_mul_of_one_le_left (by positivity) hone
      _ < 2 ^ (q + 24) := h.value_lt
      _ ≤ 2 ^ (128 : ℤ) := zpow_le_zpow_right₀ one_le_two (by omega)
      _ ≤ 10 ^ (39 : ℤ) := by norm_num
  rw [zpow_le_zpow_iff_right₀ (by norm_num)] at hsmall
  rw [zpow_lt_zpow_iff_right₀ (by norm_num)] at hlarge
  omega

/-- If the decimal of a number is near to an end of the interval, then its power of ten is not much
smaller than the unit: otherwise there would be a nearer multiple. -/
theorem unit_le_of_near_end (h : IsFound m q false c k) {b : ℚ}
    (hend : b = (Interval.around m q false).lower ∨ b = (Interval.around m q false).upper)
    (hnear : Near 51 (c * 10 ^ k) b) : (2 ^ 24 - 1) * 2 ^ q ≤ (2 : ℚ) ^ 24 * 10 ^ k := by
  obtain ⟨hin, hbest⟩ :=
    Interval.contains_of_multiple? (Interval.denominator_around_pos m q false) h.hit
  have hT : (0 : ℚ) < 10 ^ k := by positivity
  have hU : (0 : ℚ) < 2 ^ q := by positivity
  have hhalf : (2 : ℚ) ^ (q - 1) = 2 ^ q / 2 := zpow_sub_one₀ two_ne_zero q
  have hcenter := Interval.center_around m q false
  have hlower := Interval.lower_around q h.pos
  have hupper := Interval.upper_around m q false
  rw [hhalf] at hlower hupper
  have hlow := hin.le
  have hhigh := hin.ge
  have hsize := h.value_lt
  rw [two_zpow_eq (rfl : q + 24 = q + (24 : ℕ))] at hsize
  rw [Near, ← le_div_iff₀ (by positivity), abs_le] at hnear
  rcases hbest with hbest | ⟨hside, hother⟩ | ⟨hside, hother⟩
  · rw [← le_div_iff₀' two_pos, abs_le] at hbest
    rcases hend with rfl | rfl <;> linarith
  · rcases hend with rfl | rfl
    · linarith
    · rcases Interval.le_or_ge_of_not_contains hother with hother | hother <;> linarith
  · rcases hend with rfl | rfl
    · rcases Interval.le_or_ge_of_not_contains hother with hother | hother <;> linarith
    · linarith

/-- A decimal near to an end is the end, and then the double that it is read as is the end too. -/
theorem contains_of_near_end (h : IsFound m q false c k) {w : ℚ}
    (hw : Numeral.Approximates (c * 10 ^ k) w (k.natAbs ≤ 22)) {M : ℕ} (hodd : M % 2 = 1)
    (hM : M < 2 ^ 25)
    (hend : M * 2 ^ (q - 1) = (Interval.around m q false).lower ∨
      M * 2 ^ (q - 1) = (Interval.around m q false).upper)
    (hnear : Near 51 (c * 10 ^ k) (M * 2 ^ (q - 1))) :
    (Interval.around m q false).Contains w ∨ Exceptional q M := by
  have hle := leastPower_le h.min_le h.le_max (h.unit_le_of_near_end hend hnear)
  obtain ⟨j, hj⟩ := Int.eq_ofNat_of_zero_le (sub_nonneg.mpr hle)
  have hmultiple : (c : ℚ) * 10 ^ k = (c * 10 ^ j : ℕ) * 10 ^ leastPower q := by
    rw [show k = j + leastPower q by omega, zpow_add₀ (by norm_num), zpow_natCast]
    push_cast
    ring
  have hsize : (c : ℚ) * 10 ^ k ≤ 2 ^ 25 * 2 ^ (q - 1) := by
    have hhigh := h.value_lt
    rw [two_zpow_eq (by omega : q + 24 = q - 1 + (25 : ℕ))] at hhigh
    exact hhigh.le
  have hpos := h.significand_pos
  have hsame := hmultiple ▸ eq_of_near h.min_le h.le_max (C := c * 10 ^ j) (by positivity) hodd hM
    (hmultiple ▸ hnear) (hmultiple ▸ hsize)
  refine hsame.imp_left fun heq => ?_
  have hk := natAbs_le_of_eq hpos h.significand_lt (by omega) (by omega) heq
  rw [hw.eq_of_dyadic hk M (q - 1) (by omega) heq]
  exact h.contains

theorem contains_of_approximates (h : IsFound m q false c k) {w : ℚ}
    (hw : Numeral.Approximates (c * 10 ^ k) w (k.natAbs ≤ 22)) :
    (Interval.around m q false).Contains w ∨
      Exceptional q (2 * m - 1) ∨ Exceptional q (2 * m + 1) := by
  have hm := h.pos
  have hlt := h.lt
  have hlower : ((2 * m - 1 : ℕ) : ℚ) * 2 ^ (q - 1) = (Interval.around m q false).lower := by
    rw [Interval.lower_around q hm]
    push_cast [show 1 ≤ 2 * m by omega]
    rfl
  have hupper : ((2 * m + 1 : ℕ) : ℚ) * 2 ^ (q - 1) = (Interval.around m q false).upper := by
    rw [Interval.upper_around]
    push_cast
    rfl
  by_cases hlow : Near 51 (c * 10 ^ k) (Interval.around m q false).lower
  · rw [← hlower] at hlow
    exact (h.contains_of_near_end hw (by omega) (by omega) (.inl hlower) hlow).imp_right .inl
  by_cases hhigh : Near 51 (c * 10 ^ k) (Interval.around m q false).upper
  · rw [← hupper] at hhigh
    exact (h.contains_of_near_end hw (by omega) (by omega) (.inr hupper) hhigh).imp_right .inr
  have hle := h.contains.le
  have hge := h.contains.ge
  have hnear := abs_le.mp ((le_div_iff₀ (by positivity)).mpr hw.near)
  rw [Near, abs_of_nonpos (by linarith), not_le] at hlow
  rw [Near, abs_of_nonneg (by linarith), not_le] at hhigh
  exact .inl (Interval.contains_of_lt (by linarith) (by linarith))

end Decimal.IsFound

/-- Whether a decimal keeps a distance of more than one part in `2^51` from both ends. -/
def Decimal.Interval.clear (i : Interval) (d : Scaled) : Bool :=
  i.low * 2 ^ 51 * tenPow (-d.exponent).toNat <
      d.significand * (2 ^ 51 - 1) * (i.denominator * tenPow d.exponent.toNat) &&
    d.significand * (2 ^ 51 + 1) * (i.denominator * tenPow d.exponent.toNat) <
      i.high * 2 ^ 51 * tenPow (-d.exponent).toNat

theorem contains_of_clear {i : Interval} (hden : 0 < i.denominator) (h : i.clear ⟨c, k⟩ = true)
    {w : ℚ} (hw : Near 51 (c * 10 ^ k) w) : i.Contains w := by
  rw [Interval.clear, Bool.and_eq_true_iff, decide_eq_true_eq, decide_eq_true_eq, ← Nat.not_le,
    ← Nat.not_le, Interval.unit_le_iff hden, Interval.le_unit_iff hden, not_le, not_le] at h
  obtain ⟨hlow, hhigh⟩ := h
  push_cast at hlow hhigh
  rw [mul_div_right_comm] at hlow hhigh
  have hnear := abs_le.mp ((le_div_iff₀ (by positivity)).mpr hw)
  refine Interval.contains_of_lt ?_ ?_
  · rw [Interval.lower]
    linarith
  · rw [Interval.upper]
    linarith

theorem clear_shortest (hmin : -149 < q) (hmax : q ≤ 104) :
    (Interval.around (2 ^ 23) q true).clear (shortest (2 ^ 23) q true) = true := by
  have hall : ∀ q ∈ Finset.Icc (-148 : ℤ) 104,
      (Interval.around (2 ^ 23) q true).clear (shortest (2 ^ 23) q true) = true := by
    decide +kernel
  exact hall q (Finset.mem_Icc.mpr ⟨hmin, hmax⟩)

/-- A double that was read from the decimal of a scalar lies in the interval of the scalar, but for
two scalars. -/
theorem Decimal.IsFound.contains_or_exceptional (h : IsFound m q (isDense .binary32 m q) c k)
    (hshortest : shortest m q (isDense .binary32 m q) = ⟨c, k⟩) {w : ℚ}
    (hw : Numeral.Approximates (c * 10 ^ k) w (k.natAbs ≤ 22)) :
    (Interval.around m q (isDense .binary32 m q)).Contains w ∨
      (q = -107 ∧ (m = 11420669 ∨ m = 11420670)) := by
  cases hdense : isDense .binary32 m q with
  | true =>
    obtain ⟨rfl, hmin⟩ := isDense_iff.mp hdense
    have hclear := clear_shortest hmin h.le_max
    rw [hdense] at hshortest
    rw [hshortest] at hclear
    exact .inl (contains_of_clear (Interval.denominator_around_pos _ q true) hclear hw.near)
  | false =>
    rw [hdense] at h
    refine (h.contains_of_approximates hw).imp_right ?_
    rintro (⟨hq, hM⟩ | ⟨hq, hM⟩)
    · exact ⟨hq, .inr (by omega)⟩
    · exact ⟨hq, .inl (by omega)⟩

end NearEnd

/-! ## Reading -/

/-- The numeral that the scalar is written as denotes the scalar. -/
def Scalar.ReadsBack (x : Scalar) : Prop :=
  (Numeral.ofScalar? x).bind Numeral.scalar? = some x

instance (x : Scalar) : Decidable x.ReadsBack :=
  inferInstanceAs (Decidable (_ = _))

theorem Scalar.eq_of_unpack {x : Scalar} {u : UnpackedFloat} (h : x.toModel.unpack = u) :
    x = ⟨.pack u⟩ := by
  rw [← h]
  exact (Float32.ofBits_toBits x).symm

/-- A double with a leading one takes any sign. -/
theorem unpack_withSign {d : Double} {M : ℕ} {E : ℤ} {hM : 0 < M}
    (h : d.toModel.unpack = .finite .positive M E hM) (hlow : 2 ^ 52 ≤ M) (s : Sign) :
    (if s == .negative then -d else d : Double).toModel.unpack = .finite s M E hM := by
  have hcanonical := canonical_of_unpack (by decide) h
  cases s with
  | positive => exact h
  | negative =>
    show (Float.Model.pack d.toModel.unpack.neg).unpack = _
    rw [h]
    exact unpack_pack hcanonical hlow

theorem readsBack_finite {x : Scalar} {s : Sign} {m : ℕ} {q : ℤ} {hm : 0 < m}
    (h : x.toModel.unpack = .finite s m q hm) : x.ReadsBack := by
  have hcanonical := canonical_of_unpack (by decide) h
  have hx := Scalar.eq_of_unpack h
  obtain ⟨c, k, hshortest, hfound⟩ :=
    shortest_eq hm hcanonical.lt hcanonical.min_le hcanonical.le_max (isDense .binary32 m q)
  obtain ⟨d, w, hscalar, hdenotes, happrox⟩ := Numeral.scalar?_ofScaled (s == .negative)
    hfound.significand_pos (hfound.significand_lt.trans (by norm_num)) hfound.natAbs_le
  rcases hfound.contains_or_exceptional hshortest happrox with hw | ⟨rfl, hm'⟩
  · have hwritten : Numeral.ofScalar? x =
        some (Numeral.ofScaled Numeral.scalarStyle (s == .negative) ⟨c, k⟩) := by
      rw [Numeral.ofScalar?, ofScalar?, h, ofUnpacked?, hshortest, Option.map_some]
    obtain ⟨M, E, hM, hunpack, hlow, rfl⟩ := hdenotes
    have hread : Scalar.ofDouble (if s == .negative then -d else d) = x := by
      rw [Scalar.ofDouble, unpack_withSign hunpack hlow s]
      simp only
      rw [round_eq_of_contains hcanonical hm hM hw s, ← hx]
    rw [Scalar.ReadsBack, hwritten, Option.bind_some, hscalar, hread]
  · have hall : ∀ s : Sign, Scalar.ReadsBack ⟨.pack (.finite s 11420669 (-107) (by norm_num))⟩ ∧
        Scalar.ReadsBack ⟨.pack (.finite s 11420670 (-107) (by norm_num))⟩ := by
      rintro (_ | _) <;> decide +kernel
    rcases hm' with rfl | rfl
    · exact hx ▸ (hall s).1
    · exact hx ▸ (hall s).2

/-- Every finite scalar is written as a numeral that denotes it. -/
theorem Scalar.readsBack_of_isFinite {x : Scalar} (h : x.isFinite = true) : x.ReadsBack := by
  change x.toModel.unpack.isFinite = true at h
  cases hunpack : x.toModel.unpack with
  | finite s m q hm => exact readsBack_finite hunpack
  | zero s =>
    have hall : ∀ s : Sign, Scalar.ReadsBack ⟨.pack (.zero s)⟩ := by
      rintro (_ | _) <;> decide +kernel
    exact Scalar.eq_of_unpack hunpack ▸ hall s
  | infinity s =>
    rw [hunpack] at h
    cases h
  | notANumber =>
    rw [hunpack] at h
    cases h

end Seahorse
