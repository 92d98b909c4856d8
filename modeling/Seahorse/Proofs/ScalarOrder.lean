import Seahorse.Proofs.Binary.Packing
import Seahorse.Proofs.FiniteScalars

/-!
# The order of scalars

A finite scalar is a whole number of quanta. With the infinities put where the next scalars would be,
every scalar that is not a NaN has a rank among the integers, and to compare scalars is to compare
ranks. What is true of an order, apart from NaN, is then arithmetic of integers.
-/

namespace Seahorse

open Float.Model (Format UnpackedFloat)
open Float.Model.UnpackedFloat

namespace Binary

/-! ## Ranks -/

/-- The number of quanta in a scalar without its sign. -/
def size (m : ℕ) (e : ℤ) : ℕ :=
  m * 2 ^ (e + Scalar.quantumExponent).toNat

/-- The number of quanta in `2¹²⁸`, which no finite scalar reaches. -/
def limit : ℕ := 2 ^ 24 * 2 ^ 253

/-- The number of quanta in a number, where the infinities count as `± 2¹²⁸`. -/
def rank : UnpackedFloat → ℤ
  | .finite s m e _ => s.apply (size m e)
  | .zero _ => 0
  | .infinity s => s.apply limit
  | .notANumber => 0

/-- A number that can be unpacked from a word of a scalar. -/
def IsCanonical : UnpackedFloat → Prop
  | .finite _ m e _ => Canonical .binary32 m e
  | _ => True

/-- What is unpacked from the word of a scalar is canonical. -/
theorem isCanonical_unpack (x : Scalar) : IsCanonical x.toModel.unpack := by
  cases h : x.toModel.unpack with
  | finite s m e hm => exact canonical_of_unpack (by decide) h
  | zero s => trivial
  | infinity s => trivial
  | notANumber => trivial

theorem minExponent_binary32 : Format.binary32.minExponent = -149 := by decide

section Size

variable {m m' : ℕ} {e e' : ℤ}

theorem size_pos (hm : 0 < m) : 0 < size m e :=
  Nat.mul_pos hm (Nat.two_pow_pos _)

/-- A finite number of the format is less than the limit, which is the next power of two. -/
theorem size_lt (h : Canonical .binary32 m e) : size m e < limit := by
  have hlt : m < 2 ^ 24 := h.lt
  have he : e ≤ 104 := h.le_max
  have hpow : 2 ^ (e + Scalar.quantumExponent).toNat ≤ 2 ^ 253 := by
    apply Nat.pow_le_pow_right two_pos
    unfold Scalar.quantumExponent
    omega
  calc size m e < 2 ^ 24 * 2 ^ (e + Scalar.quantumExponent).toNat :=
        Nat.mul_lt_mul_of_pos_right hlt (Nat.two_pow_pos _)
    _ ≤ limit := Nat.mul_le_mul_left _ hpow

/-- The larger exponent belongs to the larger number: it has a leading one. -/
theorem size_lt_of_exponent_lt (h : Canonical .binary32 m e) (h' : Canonical .binary32 m' e')
    (hlt : e < e') : size m e < size m' e' := by
  have hmin : -149 ≤ e := minExponent_binary32 ▸ h.min_le
  have hm : m < 2 ^ 24 := h.lt
  have hm' : 2 ^ 23 ≤ m' := by
    rcases h'.leading with hlead | heq
    · exact hlead
    · rw [minExponent_binary32] at heq
      omega
  have hpow : 2 * 2 ^ (e + Scalar.quantumExponent).toNat ≤ 2 ^ (e' + Scalar.quantumExponent).toNat := by
    rw [← pow_succ']
    apply Nat.pow_le_pow_right two_pos
    unfold Scalar.quantumExponent
    omega
  calc size m e < 2 ^ 24 * 2 ^ (e + Scalar.quantumExponent).toNat :=
        Nat.mul_lt_mul_of_pos_right hm (Nat.two_pow_pos _)
    _ = 2 ^ 23 * (2 * 2 ^ (e + Scalar.quantumExponent).toNat) := by ring
    _ ≤ size m' e' := Nat.mul_le_mul hm' hpow

/-- Comparing exponents first and mantissas then compares the numbers. -/
theorem compare_size (h : Canonical .binary32 m e) (h' : Canonical .binary32 m' e') :
    (compare e e').then (compare m m') = compare (size m e : ℤ) (size m' e') := by
  rcases lt_trichotomy e e' with hlt | rfl | hgt
  · have hsize := size_lt_of_exponent_lt h h' hlt
    rw [compare_lt_iff_lt.mpr hlt, compare_lt_iff_lt.mpr (Int.ofNat_lt.mpr hsize)]
    rfl
  · rw [compare_eq_iff_eq.mpr rfl]
    show compare m m' = _
    rcases lt_trichotomy m m' with hlt | rfl | hgt
    · have hsize : size m e < size m' e := Nat.mul_lt_mul_of_pos_right hlt (Nat.two_pow_pos _)
      rw [compare_lt_iff_lt.mpr hlt, compare_lt_iff_lt.mpr (Int.ofNat_lt.mpr hsize)]
    · rw [compare_eq_iff_eq.mpr rfl, compare_eq_iff_eq.mpr rfl]
    · have hsize : size m' e < size m e := Nat.mul_lt_mul_of_pos_right hgt (Nat.two_pow_pos _)
      rw [compare_gt_iff_gt.mpr hgt, compare_gt_iff_gt.mpr (Int.ofNat_lt.mpr hsize)]
  · have hsize := size_lt_of_exponent_lt h' h hgt
    rw [compare_gt_iff_gt.mpr hgt, compare_gt_iff_gt.mpr (Int.ofNat_lt.mpr hsize)]
    rfl

end Size

/-- Negation turns a comparison around. -/
theorem compare_neg (a b : ℤ) : compare (-a) (-b) = (compare a b).swap := by
  rcases lt_trichotomy a b with hlt | rfl | hgt
  · rw [compare_lt_iff_lt.mpr hlt, compare_gt_iff_gt.mpr (neg_lt_neg hlt)]
    rfl
  · rw [compare_eq_iff_eq.mpr rfl, compare_eq_iff_eq.mpr rfl]
    rfl
  · rw [compare_gt_iff_gt.mpr hgt, compare_lt_iff_lt.mpr (neg_lt_neg hgt)]
    rfl

/-- The positive infinity is above zero. -/
theorem limit_pos : (0 : ℤ) < limit := by
  unfold limit
  positivity

section Compare

variable {u v : UnpackedFloat}

/-- The rank of a finite number lies strictly between those of the infinities. -/
theorem rank_lt_limit (hu : IsCanonical u) (hfinite : u.isFinite = true) : |rank u| < limit := by
  have hpos := limit_pos
  cases u with
  | finite s m e hm =>
    have hsize : (size m e : ℤ) < limit := Int.ofNat_lt.mpr (size_lt hu)
    rw [abs_lt]
    cases s with
    | positive => exact ⟨by show -_ < (size m e : ℤ); omega, hsize⟩
    | negative => exact ⟨neg_lt_neg hsize, by show -(size m e : ℤ) < _; omega⟩
  | zero s => simpa [rank] using hpos
  | infinity s => cases hfinite
  | notANumber => cases hfinite

/-- **Ranks.** To compare two numbers that are not NaN is to compare their ranks. The two zeros have
one rank, and are equal. -/
theorem compare_eq (hu : IsCanonical u) (hv : IsCanonical v) (hnu : u ≠ .notANumber)
    (hnv : v ≠ .notANumber) : u.compare v = some (compare (rank u) (rank v)) := by
  have hlt {a b : ℤ} (h : a < b) : some Ordering.lt = some (compare a b) := by
    rw [compare_lt_iff_lt.mpr h]
  have hgt {a b : ℤ} (h : b < a) : some Ordering.gt = some (compare a b) := by
    rw [compare_gt_iff_gt.mpr h]
  cases u with
  | notANumber => exact absurd rfl hnu
  | infinity s =>
    cases v with
    | notANumber => exact absurd rfl hnv
    | infinity t =>
      cases s <;> cases t <;> decide +kernel
    | _ =>
      obtain ⟨hlow, hhigh⟩ := abs_lt.mp (rank_lt_limit hv rfl)
      cases s with
      | positive => exact hgt hhigh
      | negative => exact hlt hlow
  | zero s =>
    cases v with
    | notANumber => exact absurd rfl hnv
    | infinity t =>
      cases t with
      | positive => exact hlt limit_pos
      | negative => exact hgt (neg_lt_zero.mpr limit_pos)
    | zero t => rfl
    | finite t m e hm =>
      have hpos : (0 : ℤ) < size m e := Int.ofNat_lt.mpr (size_pos hm)
      cases t with
      | positive => exact hlt hpos
      | negative => exact hgt (neg_lt_zero.mpr hpos)
  | finite s m e hm =>
    have hpos : (0 : ℤ) < size m e := Int.ofNat_lt.mpr (size_pos hm)
    cases v with
    | notANumber => exact absurd rfl hnv
    | infinity t =>
      obtain ⟨hlow, hhigh⟩ := abs_lt.mp (rank_lt_limit hu rfl)
      cases t with
      | positive => cases s <;> exact hlt hhigh
      | negative => cases s <;> exact hgt hlow
    | zero t =>
      cases s with
      | positive => exact hgt hpos
      | negative => exact hlt (neg_lt_zero.mpr hpos)
    | finite t m' e' hm' =>
      have hpos' : (0 : ℤ) < size m' e' := Int.ofNat_lt.mpr (size_pos hm')
      cases s with
      | positive =>
        cases t with
        | positive => exact congrArg some (compare_size hu hv)
        | negative => exact hgt ((neg_lt_zero.mpr hpos').trans hpos)
      | negative =>
        cases t with
        | positive => exact hlt ((neg_lt_zero.mpr hpos).trans hpos')
        | negative =>
          show some ((compare e e').then (compare m m')).swap = _
          rw [compare_size hu hv, ← compare_neg]
          rfl

end Compare

end Binary

namespace Scalar

/-- The number of quanta in a scalar, where the infinities count as `± 2¹²⁸`. -/
def rank (x : Scalar) : ℤ :=
  Binary.rank x.toModel.unpack

variable {x y z : Scalar}

/-- A scalar is a number unless it unpacks to NaN. -/
theorem isNaN_eq_false_iff : x.isNaN = false ↔ x.toModel.unpack ≠ .notANumber := by
  show x.toModel.unpack.isNaN = false ↔ _
  cases x.toModel.unpack <;> simp [UnpackedFloat.isNaN]

/-- The same for scalars, which are canonical as they are. -/
theorem compare_eq (hx : x.isNaN = false) (hy : y.isNaN = false) :
    x.toModel.unpack.compare y.toModel.unpack = some (compare x.rank y.rank) :=
  Binary.compare_eq (Binary.isCanonical_unpack x) (Binary.isCanonical_unpack y)
    (isNaN_eq_false_iff.mp hx) (isNaN_eq_false_iff.mp hy)

/-- What `<` means, in the model of the numbers. -/
theorem lt_iff : x < y ↔ x.toModel.unpack.lt y.toModel.unpack = true := by
  show Float32.lt x y = true ↔ _
  unfold Float32.lt
  exact decide_eq_true_iff

/-- A NaN cannot be compared, on either side. -/
theorem isNaN_eq_false_of_compare {o : Ordering}
    (h : x.toModel.unpack.compare y.toModel.unpack = some o) : x.isNaN = false ∧ y.isNaN = false := by
  rw [isNaN_eq_false_iff, isNaN_eq_false_iff]
  constructor
  · intro hx
    rw [hx] at h
    cases h
  · intro hy
    rw [hy] at h
    cases hx : x.toModel.unpack <;> rw [hx] at h <;> cases h

/-- So what is at most something is not a NaN, and neither is that. -/
theorem isNaN_eq_false_of_le (h : x ≤ y) : x.isNaN = false ∧ y.isNaN = false := by
  rw [le_iff, UnpackedFloat.le, Option.any_eq_true] at h
  obtain ⟨o, ho, -⟩ := h
  exact isNaN_eq_false_of_compare ho

theorem isNaN_eq_false_of_lt (h : x < y) : x.isNaN = false ∧ y.isNaN = false := by
  rw [lt_iff, UnpackedFloat.lt, beq_iff_eq] at h
  exact isNaN_eq_false_of_compare h

/-- `≤` is `≤` of ranks, and false with a NaN on either side. -/
theorem le_iff_rank : x ≤ y ↔ x.isNaN = false ∧ y.isNaN = false ∧ x.rank ≤ y.rank := by
  have hle (hx : x.isNaN = false) (hy : y.isNaN = false) : x ≤ y ↔ x.rank ≤ y.rank := by
    rw [le_iff, UnpackedFloat.le, compare_eq hx hy, Option.any_some, Ordering.isLE_iff_ne_gt]
    exact compare_le_iff_le
  constructor
  · intro h
    obtain ⟨hx, hy⟩ := isNaN_eq_false_of_le h
    exact ⟨hx, hy, (hle hx hy).mp h⟩
  · rintro ⟨hx, hy, h⟩
    exact (hle hx hy).mpr h

/-- `<` is `<` of ranks, and false with a NaN on either side. -/
theorem lt_iff_rank : x < y ↔ x.isNaN = false ∧ y.isNaN = false ∧ x.rank < y.rank := by
  have hlt (hx : x.isNaN = false) (hy : y.isNaN = false) : x < y ↔ x.rank < y.rank := by
    rw [lt_iff, UnpackedFloat.lt, compare_eq hx hy, beq_iff_eq, Option.some_inj]
    exact compare_lt_iff_lt
  constructor
  · intro h
    obtain ⟨hx, hy⟩ := isNaN_eq_false_of_lt h
    exact ⟨hx, hy, (hlt hx hy).mp h⟩
  · rintro ⟨hx, hy, h⟩
    exact (hlt hx hy).mpr h

protected theorem le_of_lt (h : x < y) : x ≤ y := by
  obtain ⟨hx, hy, hrank⟩ := lt_iff_rank.mp h
  exact le_iff_rank.mpr ⟨hx, hy, hrank.le⟩

protected theorem lt_of_lt_of_le (h : x < y) (h' : y ≤ z) : x < z := by
  obtain ⟨hx, -, hrank⟩ := lt_iff_rank.mp h
  obtain ⟨-, hz, hrank'⟩ := le_iff_rank.mp h'
  exact lt_iff_rank.mpr ⟨hx, hz, hrank.trans_le hrank'⟩

/-- A scalar that is not a NaN is at most itself. -/
protected theorem le_self (hx : x.isNaN = false) : x ≤ x :=
  le_iff_rank.mpr ⟨hx, hx, le_rfl⟩

/-- No scalar is both less than and at least another. -/
protected theorem not_le_of_lt (h : x < y) : ¬ y ≤ x := by
  intro h'
  obtain ⟨-, -, hrank⟩ := lt_iff_rank.mp h
  obtain ⟨-, -, hrank'⟩ := le_iff_rank.mp h'
  omega

/-- Of two scalars that are not NaN, one is at most the other. -/
protected theorem lt_of_not_le (hx : x.isNaN = false) (hy : y.isNaN = false) (h : ¬ y ≤ x) : x < y := by
  refine lt_iff_rank.mpr ⟨hx, hy, ?_⟩
  by_contra hle
  exact h (le_iff_rank.mpr ⟨hy, hx, not_lt.mp hle⟩)

/-- A finite scalar is a number. -/
theorem isNaN_eq_false_of_isFinite (h : x.isFinite = true) : x.isNaN = false := by
  change x.toModel.unpack.isFinite = true at h
  rw [isNaN_eq_false_iff]
  intro hx
  rw [hx] at h
  cases h

end Scalar

end Seahorse
