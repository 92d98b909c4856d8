import Seahorse.Proofs.Binary.Rounding
import Seahorse.Proofs.Decimal.ReadBack
import Seahorse.Proofs.ScalarOrder

/-!
# Sums and differences of scalars

A sum or a difference is the rounded sum or difference of two ranks. Rounding keeps the sign, and it
leads to an infinity only near the largest scalar. From this follows what the clock of a run and the
headings rest on: time that is added never makes a sum negative, an interval that is taken from a
time at least as long leaves no negative time, and the sum of two angles is finite.
-/

namespace Seahorse

open Float.Model (Format UnpackedFloat totalExponent)
open Float.Model.UnpackedFloat

namespace Binary

/-! ## Sums and differences before rounding -/

section Aligned

variable {m m' : ℕ} {e e' : ℤ}

theorem apply_mul (s : Sign) (a b : ℤ) : s.apply (a * b) = s.apply a * b := by
  cases s with
  | positive => rfl
  | negative => exact neg_mul_eq_neg_mul a b

/-- A mantissa that is written out to a smaller exponent stands for the same number of quanta. -/
theorem aligned (s : Sign) {E : ℤ} (hE : -149 ≤ E) (hle : E ≤ e) :
    s.apply (m <<< (e - E).toNat : ℕ) * 2 ^ (E + Scalar.quantumExponent).toNat =
      s.apply (size m e) := by
  have hexp : (e + Scalar.quantumExponent).toNat =
      (e - E).toNat + (E + Scalar.quantumExponent).toNat := by
    unfold Scalar.quantumExponent
    omega
  rw [← apply_mul]
  congr 1
  rw [size, hexp, Nat.shiftLeft_eq, pow_add]
  push_cast
  ring

/-- A sum is computed exactly, on the smaller of the two exponents, and rounded once. -/
theorem exists_normalize_add (h : Canonical .binary32 m e) (h' : Canonical .binary32 m' e')
    (s t : Sign) (hm : 0 < m) (hm' : 0 < m') :
    ∃ k E, -149 ≤ E ∧
      add .binary32 (.finite s m e hm) (.finite t m' e' hm') =
        UnpackedFloat.normalize .binary32 k E .positive ∧
      k * 2 ^ (E + Scalar.quantumExponent).toNat = s.apply (size m e) + t.apply (size m' e') := by
  have hE : -149 ≤ min e e' := minExponent_binary32 ▸ le_min h.min_le h'.min_le
  refine ⟨_, min e e', hE, rfl, ?_⟩
  rw [add_mul, aligned s hE (min_le_left _ _), aligned t hE (min_le_right _ _)]

/-- So is a difference. -/
theorem exists_normalize_sub (h : Canonical .binary32 m e) (h' : Canonical .binary32 m' e')
    (s t : Sign) (hm : 0 < m) (hm' : 0 < m') :
    ∃ k E, -149 ≤ E ∧
      sub .binary32 (.finite s m e hm) (.finite t m' e' hm') =
        UnpackedFloat.normalize .binary32 k E .positive ∧
      k * 2 ^ (E + Scalar.quantumExponent).toNat = s.apply (size m e) - t.apply (size m' e') := by
  have hE : -149 ≤ min e e' := minExponent_binary32 ▸ le_min h.min_le h'.min_le
  refine ⟨_, min e e', hE, rfl, ?_⟩
  rw [sub_mul, aligned s hE (min_le_left _ _), aligned t hE (min_le_right _ _)]

end Aligned

/-! ## What rounding and packing keep -/

/-- Whether a number is at least zero. -/
def IsNonneg : UnpackedFloat → Prop
  | .finite s .. | .infinity s => s = .positive
  | .zero _ => True
  | .notANumber => False

/-- Rounding keeps the sign, and makes nothing but a zero or a finite mantissa; what is too large
shows when it is packed. -/
theorem round_cases (s : Sign) (M : ℕ) (E : ℤ) :
    UnpackedFloat.round .binary32 s M E = .zero s ∨
    ∃ m e hm, UnpackedFloat.round .binary32 s M E = .finite s m e hm := by
  unfold UnpackedFloat.round roundWithAccuracy
  dsimp only
  split_ifs with hzero
  · exact .inl rfl
  · exact .inr ⟨_, _, Nat.pos_of_ne_zero hzero, rfl⟩

theorem normalize_eq (k E : ℤ) :
    UnpackedFloat.normalize .binary32 k E .positive =
      if k = 0 then .zero .positive
      else .round .binary32 (if k < 0 then .negative else .positive) k.natAbs E := by
  unfold UnpackedFloat.normalize
  rcases lt_trichotomy k 0 with hneg | rfl | hpos
  · have habs : (-k).toNat = k.natAbs := by omega
    rw [compare_lt_iff_lt.mpr hneg, habs, if_neg hneg.ne, if_pos hneg]
  · rw [compare_eq_iff_eq.mpr rfl, if_pos rfl]
  · have habs : k.toNat = k.natAbs := by omega
    rw [compare_gt_iff_gt.mpr hpos, habs, if_neg hpos.ne', if_neg hpos.not_gt]

/-- A whole number of units that is not negative is rounded to one that is not. -/
theorem isNonneg_normalize {k : ℤ} (hk : 0 ≤ k) (E : ℤ) :
    IsNonneg (UnpackedFloat.normalize .binary32 k E .positive) := by
  rw [normalize_eq, if_neg hk.not_gt]
  split_ifs with hzero
  · trivial
  · rcases round_cases .positive k.natAbs E with hround | ⟨m, e, hm, hround⟩ <;> rw [hround]
    · trivial
    · rfl

theorem unpack_packComponents_cases (s : Sign) {field : BitVec 8} (v : BitVec 23)
    (hfield : field ≠ -1#8) :
    unpack .binary32 (packComponents .binary32 s field v) = .zero s ∨
    ∃ m e hm, unpack .binary32 (packComponents .binary32 s field v) = .finite s m e hm := by
  unfold unpack
  simp only [unpackExponent_packComponents, unpackMantissa_packComponents,
    unpackSign_packComponents, Sign.ofBitVec_toBitVec]
  rw [if_neg hfield]
  split_ifs with hzero hnone
  · exact .inl rfl
  · exact .inr ⟨_, _, Nat.pos_of_ne_zero fun h => hnone (BitVec.eq_of_toNat_eq h), rfl⟩
  · have hpos : 0 < (1#1 ++ v).toNat := toNat_one_append v ▸ Nat.add_pos_left (Nat.two_pow_pos _) _
    exact .inr ⟨_, _, hpos, rfl⟩

theorem unpack_packedInfinity (s : Sign) :
    unpack .binary32 (packedInfinity .binary32 s) = .infinity s := by
  cases s <;> rfl

/-- A packed number keeps its sign, and it becomes an infinity only beyond the largest exponent. -/
theorem unpack_pack_cases (s : Sign) (m : ℕ) (e : ℤ) (hm : 0 < m) :
    unpack .binary32 (pack .binary32 (.finite s m e hm)) = .zero s ∨
    (∃ m' e' hm', unpack .binary32 (pack .binary32 (.finite s m e hm)) = .finite s m' e' hm') ∨
    unpack .binary32 (pack .binary32 (.finite s m e hm)) = .infinity s ∧ 104 < e := by
  have hbias : (e + Format.binary32.exponentBias + Format.binary32.mantissaBitsWithoutImplicit) =
      e + 150 := by
    rw [add_assoc]
    rfl
  unfold pack
  simp only [hbias]
  split_ifs with hlarge hnormal
  · right; right
    refine ⟨unpack_packedInfinity s, ?_⟩
    have hbits : 2 ^ Format.binary32.exponentBits = 256 := rfl
    omega
  · rw [← or_assoc]
    left
    refine unpack_packComponents_cases s _ fun hones => ?_
    have hfield := congrArg BitVec.toNat hones
    rw [BitVec.toNat_ofNat, toNat_neg_one] at hfield
    change _ % 2 ^ 8 = 2 ^ 8 - 1 at hfield
    change ¬ 2 ^ 8 ≤ _ + 1 at hlarge
    omega
  · rw [← or_assoc]
    left
    exact unpack_packComponents_cases s _ (by decide)

/-- Packing keeps the sign. -/
theorem isNonneg_unpack_pack {u : UnpackedFloat} (h : IsNonneg u) :
    IsNonneg (unpack .binary32 (pack .binary32 u)) := by
  cases u with
  | finite s m e hm =>
    obtain rfl : s = .positive := h
    rcases unpack_pack_cases .positive m e hm with heq | ⟨m', e', hm', heq⟩ | ⟨heq, -⟩ <;> rw [heq]
    · trivial
    · rfl
    · rfl
  | infinity s =>
    obtain rfl : s = .positive := h
    rfl
  | zero s => cases s <;> trivial
  | notANumber => exact h.elim

theorem isFinite_unpack_pack {s : Sign} {m : ℕ} {e : ℤ} (hm : 0 < m) (he : e ≤ 104) :
    (unpack .binary32 (pack .binary32 (.finite s m e hm))).isFinite = true := by
  rcases unpack_pack_cases s m e hm with heq | ⟨m', e', hm', heq⟩ | ⟨-, hlt⟩
  · rw [heq]
    rfl
  · rw [heq]
    rfl
  · omega

/-- The exponent of a number of less than `2²⁰¹` quanta is far from the largest one. -/
theorem targetExponent_le {M : ℕ} {E : ℤ} (hM : 0 < M) (hE : -149 ≤ E)
    (hsize : size M E < 2 ^ 201) : Format.binary32.targetExponent (totalExponent M E) ≤ 28 := by
  have hpow : 2 ^ (M.log2 + (E + Scalar.quantumExponent).toNat) < 2 ^ 201 := by
    rw [pow_add]
    exact lt_of_le_of_lt (Nat.mul_le_mul_right _ (Nat.log2_self_le hM.ne')) hsize
  have hlog := (Nat.pow_lt_pow_iff_right one_lt_two).mp hpow
  unfold Format.targetExponent totalExponent Scalar.quantumExponent at *
  rw [minExponent_binary32, mantissaBits_binary32]
  omega

/-- What is small enough stays finite when it is rounded. -/
theorem isFinite_round {s : Sign} {M : ℕ} {E : ℤ} (hM : 0 < M) (hE : -149 ≤ E)
    (hsize : size M E < 2 ^ 201) :
    (unpack .binary32 (pack .binary32 (UnpackedFloat.round .binary32 s M E))).isFinite = true := by
  have hle := targetExponent_le hM hE hsize
  obtain ⟨n, -, -, hround⟩ := round_eq .binary32 s hM rfl (E := E)
  rw [hround]
  unfold rounded
  split_ifs with hzero hcarry
  · cases s <;> rfl
  · exact isFinite_unpack_pack _ (by omega)
  · exact isFinite_unpack_pack _ (by omega)

theorem isFinite_normalize {k E : ℤ} (hE : -149 ≤ E)
    (hsize : |k * 2 ^ (E + Scalar.quantumExponent).toNat| < 2 ^ 201) :
    (unpack .binary32 (pack .binary32
      (UnpackedFloat.normalize .binary32 k E .positive))).isFinite = true := by
  have hnat : size k.natAbs E < 2 ^ 201 := by
    have hpow : (0 : ℤ) ≤ 2 ^ (E + Scalar.quantumExponent).toNat := by positivity
    rw [abs_mul, abs_of_nonneg hpow, Int.abs_eq_natAbs] at hsize
    exact_mod_cast hsize
  rw [normalize_eq]
  split_ifs with hzero
  · rfl
  · exact isFinite_round (Int.natAbs_pos.mpr hzero) hE hnat
  · exact isFinite_round (Int.natAbs_pos.mpr hzero) hE hnat

/-- A number that came from `r` quanta by rounding. -/
structure Rounds (w : UnpackedFloat) (r : ℤ) : Prop where
  nonneg : 0 ≤ r → IsNonneg w
  finite : |r| < 2 ^ 201 → (unpack .binary32 (pack .binary32 w)).isFinite = true

theorem rounds_normalize {k E r : ℤ} (hE : -149 ≤ E)
    (hk : k * 2 ^ (E + Scalar.quantumExponent).toNat = r) :
    Rounds (UnpackedFloat.normalize .binary32 k E .positive) r where
  nonneg := by
    intro hr
    have hpow : (0 : ℤ) < 2 ^ (E + Scalar.quantumExponent).toNat := by positivity
    exact isNonneg_normalize (nonneg_of_mul_nonneg_left (hk ▸ hr) hpow) E
  finite := by
    intro hr
    exact isFinite_normalize hE (hk ▸ hr)

theorem rounds_finite {s : Sign} {m : ℕ} {e : ℤ} {hm : 0 < m} (h : Canonical .binary32 m e) :
    Rounds (.finite s m e hm) (s.apply (size m e)) where
  nonneg := by
    intro hr
    have hpos : (0 : ℤ) < size m e := Int.ofNat_lt.mpr (size_pos hm)
    cases s with
    | positive => rfl
    | negative =>
      change 0 ≤ -(size m e : ℤ) at hr
      omega
  finite := fun _ => isFinite_unpack_pack hm h.le_max

theorem rounds_zero (s : Sign) : Rounds (.zero s) 0 where
  nonneg := fun _ => trivial
  finite := fun _ => by cases s <;> rfl

section Finite

variable {u v : UnpackedFloat} (hu : IsCanonical u) (hv : IsCanonical v)
  (hfu : u.isFinite = true) (hfv : v.isFinite = true)
include hu hv hfu hfv

/-- A sum is its exact value, rounded. -/
theorem rounds_add : Rounds (add .binary32 u v) (rank u + rank v) := by
  cases u with
  | notANumber => cases hfu
  | infinity s => cases hfu
  | zero s =>
    cases v with
    | notANumber => cases hfv
    | infinity t => cases hfv
    | zero t => cases s <;> cases t <;> exact rounds_zero _
    | finite t m e hm => exact (zero_add (rank (.finite t m e hm))).symm ▸ rounds_finite hv
  | finite s m e hm =>
    cases v with
    | notANumber => cases hfv
    | infinity t => cases hfv
    | zero t => exact (add_zero (rank (.finite s m e hm))).symm ▸ rounds_finite hu
    | finite t m' e' hm' =>
      obtain ⟨k, E, hE, hadd, hk⟩ := exists_normalize_add hu hv s t hm hm'
      rw [hadd]
      exact rounds_normalize hE hk

/-- A difference is its exact value, rounded. -/
theorem rounds_sub : Rounds (sub .binary32 u v) (rank u - rank v) := by
  cases u with
  | notANumber => cases hfu
  | infinity s => cases hfu
  | zero s =>
    cases v with
    | notANumber => cases hfv
    | infinity t => cases hfv
    | zero t => cases s <;> cases t <;> exact rounds_zero _
    | finite t m e hm =>
      have hneg : rank (.zero s) - rank (.finite t m e hm) = (-t).apply (size m e) := by
        cases t with
        | positive => exact zero_sub _
        | negative => exact (zero_sub _).trans (neg_neg _)
      rw [hneg]
      exact rounds_finite hv
  | finite s m e hm =>
    cases v with
    | notANumber => cases hfv
    | infinity t => cases hfv
    | zero t => exact (sub_zero (rank (.finite s m e hm))).symm ▸ rounds_finite hu
    | finite t m' e' hm' =>
      obtain ⟨k, E, hE, hsub, hk⟩ := exists_normalize_sub hu hv s t hm hm'
      rw [hsub]
      exact rounds_normalize hE hk

end Finite

section Nonneg

variable {u v : UnpackedFloat} (hu : IsCanonical u) (hv : IsCanonical v)
include hu hv

/-- A sum of numbers that are not negative is not negative; two infinities of one sign make no NaN.
-/
theorem isNonneg_add (hru : 0 ≤ rank u) (hrv : 0 ≤ rank v) (hnu : IsNonneg u) (hnv : IsNonneg v) :
    IsNonneg (add .binary32 u v) := by
  cases u with
  | notANumber => exact hnu.elim
  | infinity s =>
    obtain rfl : s = .positive := hnu
    cases v with
    | notANumber => exact hnv.elim
    | infinity t =>
      obtain rfl : t = .positive := hnv
      rfl
    | zero t => rfl
    | finite t m e hm => rfl
  | _ =>
    cases v with
    | notANumber => exact hnv.elim
    | infinity t => exact hnv
    | _ => exact (rounds_add hu hv rfl rfl).nonneg (Int.add_nonneg hru hrv)

/-- A difference of a number and a finite one that is not larger is not negative. -/
theorem isNonneg_sub (hle : rank v ≤ rank u) (hnu : u ≠ .notANumber) (hfv : v.isFinite = true) :
    IsNonneg (sub .binary32 u v) := by
  cases u with
  | notANumber => exact absurd rfl hnu
  | infinity s =>
    cases s with
    | negative =>
      have hlow := (abs_lt.mp (rank_lt_limit hv hfv)).1
      exact absurd hle (not_le.mpr hlow)
    | positive =>
      cases v with
      | notANumber => cases hfv
      | infinity t => cases hfv
      | zero t => rfl
      | finite t m e hm => rfl
  | _ => exact (rounds_sub hu hv rfl hfv).nonneg (Int.sub_nonneg_of_le hle)

end Nonneg

/-- What is subtracted from itself leaves the positive zero. -/
theorem sub_self_of_isFinite {u : UnpackedFloat} (hu : u.isFinite = true) :
    sub .binary32 u u = .zero .positive := by
  cases u with
  | notANumber => cases hu
  | infinity s => cases hu
  | zero s => cases s <;> rfl
  | finite s m e hm =>
    show UnpackedFloat.normalize .binary32 (_ - _) _ _ = _
    rw [Int.sub_self, normalize_eq, if_pos rfl]

/-- Adding a zero changes nothing but the sign of a zero. -/
theorem add_zero_cases (u : UnpackedFloat) :
    add .binary32 u (.zero .positive) = u ∨
    u = .zero .negative ∧ add .binary32 u (.zero .positive) = .zero .positive := by
  cases u with
  | notANumber => exact .inl rfl
  | infinity s => exact .inl rfl
  | finite s m e hm => exact .inl rfl
  | zero s =>
    cases s with
    | positive => exact .inl rfl
    | negative => exact .inr ⟨rfl, rfl⟩

end Binary

namespace Scalar

/-! ## Sums and differences -/

variable {x y : Scalar}

theorem unpack_add (x y : Scalar) :
    (x + y).toModel.unpack =
      unpack .binary32 (pack .binary32 (add .binary32 x.toModel.unpack y.toModel.unpack)) :=
  rfl

theorem unpack_sub (x y : Scalar) :
    (x - y).toModel.unpack =
      unpack .binary32 (pack .binary32 (sub .binary32 x.toModel.unpack y.toModel.unpack)) :=
  rfl

theorem zero_eq : (0 : Scalar) = ⟨.pack (.zero .positive)⟩ := by
  decide +kernel

theorem unpack_zero : (0 : Scalar).toModel.unpack = .zero .positive := by
  rw [zero_eq]
  rfl

theorem rank_zero : (0 : Scalar).rank = 0 := by
  rw [rank, unpack_zero]
  rfl

/-- To be at least zero is a matter of the sign; both zeros are. -/
theorem nonneg_iff : 0 ≤ x ↔ Binary.IsNonneg x.toModel.unpack := by
  rw [le_iff, unpack_zero]
  cases x.toModel.unpack with
  | finite s m e hm => cases s <;> simp [Binary.IsNonneg, UnpackedFloat.le, UnpackedFloat.compare]
  | infinity s => cases s <;> simp [Binary.IsNonneg, UnpackedFloat.le, UnpackedFloat.compare]
  | zero s => simp [Binary.IsNonneg, UnpackedFloat.le, UnpackedFloat.compare]
  | notANumber => simp [Binary.IsNonneg, UnpackedFloat.le, UnpackedFloat.compare]

theorem rank_nonneg (hx : 0 ≤ x) : 0 ≤ x.rank := by
  obtain ⟨-, -, hrank⟩ := le_iff_rank.mp hx
  rwa [rank_zero] at hrank

/-- The sum of two scalars that are not negative is not negative, and it is not a NaN. -/
theorem add_nonneg (hx : 0 ≤ x) (hy : 0 ≤ y) : 0 ≤ x + y := by
  rw [nonneg_iff, unpack_add]
  exact Binary.isNonneg_unpack_pack (Binary.isNonneg_add (Binary.isCanonical_unpack x)
    (Binary.isCanonical_unpack y) (rank_nonneg hx) (rank_nonneg hy)
    (nonneg_iff.mp hx) (nonneg_iff.mp hy))

/-- What is taken from something at least as large leaves something that is not negative. -/
theorem sub_nonneg (h : y ≤ x) (hy : y.isFinite = true) : 0 ≤ x - y := by
  obtain ⟨-, hx, hrank⟩ := le_iff_rank.mp h
  rw [nonneg_iff, unpack_sub]
  exact Binary.isNonneg_unpack_pack (Binary.isNonneg_sub (Binary.isCanonical_unpack x)
    (Binary.isCanonical_unpack y) hrank (isNaN_eq_false_iff.mp hx) hy)

theorem sub_self (hx : x.isFinite = true) : x - x = 0 := by
  show (⟨.pack (sub .binary32 x.toModel.unpack x.toModel.unpack)⟩ : Scalar) = 0
  rw [Binary.sub_self_of_isFinite hx, zero_eq]

/-- No comparison can tell that a zero was added. -/
theorem rank_add_zero (x : Scalar) : (x + 0).rank = x.rank ∧ (x + 0).isNaN = x.isNaN := by
  have hsum : x + 0 = ⟨.pack (add .binary32 x.toModel.unpack (.zero .positive))⟩ := by
    rw [← unpack_zero]
    rfl
  rcases Binary.add_zero_cases x.toModel.unpack with hsame | ⟨hx, hzero⟩
  · rw [hsum, hsame, ← eq_of_unpack rfl]
    exact ⟨rfl, rfl⟩
  · rw [hsum, hzero, eq_of_unpack hx]
    exact ⟨rfl, rfl⟩

/-- Adding zero makes no difference to an order. -/
theorem le_add_zero_iff : y ≤ x + 0 ↔ y ≤ x := by
  obtain ⟨hrank, hnan⟩ := rank_add_zero x
  rw [le_iff_rank, le_iff_rank, hrank, hnan]

/-- Only the two zeros share a rank. -/
theorem eq_of_rank_eq (hx : x.isNaN = false) (hy : y.isNaN = false) (h : x.rank = y.rank)
    (hne : x.rank ≠ 0) : x = y := by
  have hbeq : x.toModel.unpack.beq y.toModel.unpack = true := by
    rw [UnpackedFloat.beq, compare_eq hx hy, compare_eq_iff_eq.mpr h]
    rfl
  rcases (beq_iff_ne_notANumber_and_eq _ _).mp hbeq with ⟨-, -, heq | ⟨hzero, -⟩ | ⟨hzero, -⟩⟩
  · rw [eq_of_unpack heq, ← eq_of_unpack rfl]
  · exact absurd (by rw [rank, hzero]; rfl) hne
  · exact absurd (by rw [rank, hzero]; rfl) hne

/-- The sum of finite scalars is finite if it has less than `2²⁰¹` quanta, which is `2⁵²`. -/
theorem isFinite_add (hx : x.isFinite = true) (hy : y.isFinite = true)
    (hsum : |x.rank + y.rank| < 2 ^ 201) : (x + y).isFinite = true :=
  (Binary.rounds_add (Binary.isCanonical_unpack x) (Binary.isCanonical_unpack y) hx hy).finite hsum

end Scalar

end Seahorse
