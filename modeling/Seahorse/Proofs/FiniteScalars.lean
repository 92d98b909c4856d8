import Seahorse.Pose

/-!
# Finite scalars

Between two finite scalars there are only finite ones. Sine, cosine and the angle of a direction are
held between two bounds, so wrapping a finite heading gives a finite heading. And what is not further
than a finite distance from a finite scalar is finite.
-/

namespace Seahorse

open Float.Model (UnpackedFloat)

namespace Scalar

/-- What `≤` means, in the model of the numbers. -/
theorem le_iff {x y : Scalar} : x ≤ y ↔ x.toModel.unpack.le y.toModel.unpack = true := by
  show Float32.le x y = true ↔ _
  unfold Float32.le
  exact decide_eq_true_iff

/-- No finite number is above the positive infinity. -/
theorem not_infinity_le {u : UnpackedFloat} (hu : u.isFinite = true) :
    (UnpackedFloat.infinity .positive).le u ≠ true := by
  intro hle
  cases u with
  | zero s => cases hle
  | finite s m e hm => cases hle
  | infinity s => cases hu
  | notANumber => cases hu

/-- An infinity is not above a finite number and below another one, and a NaN is neither. -/
theorem isFinite_of_unpacked_le {a u b : UnpackedFloat} (ha : a.isFinite = true)
    (hb : b.isFinite = true) (hle : a.le u = true) (hle' : u.le b = true) : u.isFinite = true := by
  cases u with
  | zero s => rfl
  | finite s m e hm => rfl
  | notANumber => cases b <;> cases hle'
  | infinity s =>
    cases s with
    | positive => exact absurd hle' (not_infinity_le hb)
    | negative =>
      cases a with
      | infinity t => cases ha
      | notANumber => cases ha
      | zero t => cases hle
      | finite t m e hm => cases hle

/-- Between two finite scalars there are only finite ones. -/
theorem isFinite_of_le_of_le {lo x hi : Scalar} (hlo : lo.isFinite = true) (hhi : hi.isFinite = true)
    (hle : lo ≤ x) (hle' : x ≤ hi) : x.isFinite = true :=
  isFinite_of_unpacked_le hlo hhi (le_iff.mp hle) (le_iff.mp hle')

theorem sub_notANumber (u : UnpackedFloat) : u.sub .binary32 .notANumber = .notANumber := by
  cases u <;> rfl

/-- An infinity is at an infinite distance from everything finite. -/
theorem sub_infinity {u : UnpackedFloat} (hu : u.isFinite = true) (s : UnpackedFloat.Sign) :
    u.sub .binary32 (.infinity s) = .infinity (-s) := by
  cases u with
  | zero t => rfl
  | finite t m e hm => rfl
  | infinity t => cases hu
  | notANumber => cases hu

/-- Nothing at a finite distance from a finite scalar is infinite. -/
theorem isFinite_of_abs_sub_le {x y t : Scalar} (hx : x.isFinite = true) (ht : t.isFinite = true)
    (h : (x - y).abs ≤ t) : y.isFinite = true := by
  change x.toModel.unpack.isFinite = true at hx
  change t.toModel.unpack.isFinite = true at ht
  have habs : (x - y).abs.toModel = .pack (Float32.Model.pack
      (x.toModel.unpack.sub .binary32 y.toModel.unpack)).unpack.abs := rfl
  rw [le_iff, habs] at h
  show y.toModel.unpack.isFinite = true
  generalize x.toModel.unpack = u at hx h
  generalize t.toModel.unpack = v at ht h
  generalize y.toModel.unpack = w at h
  cases w with
  | zero s => rfl
  | finite s m e hm => rfl
  | notANumber =>
    rw [sub_notANumber] at h
    cases h
  | infinity s =>
    -- the distance is the positive infinity, and that is not below a finite scalar
    have hdistance : (Float32.Model.pack (Float32.Model.pack (.infinity (-s))).unpack.abs).unpack =
        .infinity .positive := by
      cases s <;> rfl
    rw [sub_infinity hx, hdistance] at h
    exact absurd h (not_infinity_le ht)

/-- What is held between finite bounds is finite, also a NaN. -/
theorem isFinite_clamp {lo hi : Scalar} (hlo : lo.isFinite = true) (hhi : hi.isFinite = true)
    (x : Scalar) : (clamp lo hi x).isFinite = true := by
  unfold clamp
  by_cases hle' : x ≤ hi
  · by_cases hle : lo ≤ x
    · rw [if_pos hle', if_pos hle]
      exact isFinite_of_le_of_le hlo hhi hle hle'
    · rw [if_pos hle', if_neg hle]
      exact hlo
  · rw [if_neg hle']
    exact hhi

/-- A finite scalar is a whole number of quanta. -/
theorem exists_quanta {x : Scalar} (h : x.isFinite = true) : ∃ q, x.quanta? = some q := by
  change x.toModel.unpack.isFinite = true at h
  unfold quanta?
  cases hunpack : x.toModel.unpack with
  | zero s => exact ⟨_, rfl⟩
  | finite s m e hm => exact ⟨_, rfl⟩
  | infinity s =>
    rw [hunpack] at h
    cases h
  | notANumber =>
    rw [hunpack] at h
    cases h

theorem isFinite_sin {x : Scalar} (h : x.isFinite = true) : (sin x).isFinite = true := by
  obtain ⟨⟨negative, n⟩, hq⟩ := exists_quanta h
  simp only [sin, hq]
  exact isFinite_clamp (by decide +kernel) (by decide +kernel) _

theorem isFinite_cos {x : Scalar} (h : x.isFinite = true) : (cos x).isFinite = true := by
  obtain ⟨⟨negative, n⟩, hq⟩ := exists_quanta h
  simp only [cos, hq]
  exact isFinite_clamp (by decide +kernel) (by decide +kernel) _

theorem isFinite_pi : pi.isFinite = true := by
  decide +kernel

theorem isFinite_angleOf {y x : Scalar} (hy : y.isFinite = true) (hx : x.isFinite = true) :
    (angleOf y x).isFinite = true := by
  obtain ⟨⟨yNegative, ny⟩, hqy⟩ := exists_quanta hy
  obtain ⟨⟨xNegative, nx⟩, hqx⟩ := exists_quanta hx
  simp only [angleOf, hqy, hqx]
  exact isFinite_clamp (by decide +kernel) isFinite_pi _

end Scalar

/-- Wrapping a finite heading gives a finite heading. -/
theorem Heading.isFinite_wrap {angle : Scalar} (h : angle.isFinite = true) :
    (wrap angle).isFinite = true := by
  have hwrapped := Scalar.isFinite_angleOf (Scalar.isFinite_sin h) (Scalar.isFinite_cos h)
  unfold wrap
  by_cases hfold : Scalar.angleOf (Scalar.sin angle) (Scalar.cos angle) ≤ -Scalar.pi + foldMargin
  · rw [if_pos hfold]
    exact Scalar.isFinite_pi
  · rw [if_neg hfold]
    exact hwrapped

end Seahorse
