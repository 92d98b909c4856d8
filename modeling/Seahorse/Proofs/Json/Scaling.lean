import Seahorse.Proofs.Binary.Doubles
import Seahorse.Proofs.Json.Tokens

/-!
# Scaling by a power of ten

The double of a numeral is its significand times a power of ten, or divided by one. A significand
with at most 53 binary digits is a double, and so are the first powers of ten; the others are rounded.
The result is off by at most one part in `2^51`, and exact where the power of ten is and the result
has 53 binary digits at most. The numerals of scalars have few digits and small powers.
-/

namespace Seahorse.Numeral

open Binary
open Float.Model (Format UnpackedFloat totalExponent)
open Float.Model.UnpackedFloat

/-- A natural number with at most 53 binary digits is a double. -/
theorem denotes_doubleOfNat {n : ℕ} (hpos : 0 < n) (hn : n < 2 ^ 53) :
    Denotes (doubleOfNat n) n := by
  have hlog : n.log2 < 53 := (Nat.log2_lt hpos.ne').mpr hn
  obtain ⟨k, hk⟩ := Nat.exists_eq_add_of_le (Nat.le_of_lt_succ hlog)
  have htarget : Format.binary64.targetExponent (totalExponent n 0) = -k := by
    rw [Format.targetExponent, totalExponent, minExponent_binary64, mantissaBits_binary64]
    omega
  have hround : UnpackedFloat.round .binary64 .positive n 0 =
      roundWithAccuracy .binary64 .positive (n <<< k) (-k) .exact := by
    simp only [UnpackedFloat.round, decreaseExponent, htarget]
    simp
  have hM : 2 ^ 52 ≤ n <<< k := by
    rw [Nat.shiftLeft_eq, hk, pow_add]
    exact Nat.mul_le_mul_right _ (Nat.log2_self_le hpos.ne')
  have hy : Locates (.ofMantissaAndAccuracy (n <<< k) .exact) (n / 2 ^ (-k : ℤ)) := by
    have heq : (n : ℚ) / 2 ^ (-k : ℤ) = (n <<< k : ℕ) := by
      rw [Nat.shiftLeft_eq, zpow_neg, div_inv_eq_mul, zpow_natCast]
      push_cast
      rfl
    rw [heq]
    exact .exact _
  obtain ⟨w, hw, hdenotes⟩ :=
    denotes_roundWithAccuracy hM hy ((InRange.natCast hpos hn).mono (by norm_num))
  rw [doubleOfNat, hround]
  rwa [hw.eq_of_dyadic hn (by rw [zpow_zero, mul_one])] at hdenotes

/-- Whether a power of ten is right up to one part in `2^53`, and the first ones altogether. -/
def tenToIsNear (n : ℕ) : Bool :=
  match (tenTo n).toModel.unpack with
  | .finite .positive m e _ =>
    let value := m <<< (e + 60).toNat
    let power := 10 ^ n * 2 ^ 60
    decide (2 ^ 52 ≤ m ∧ -60 ≤ e ∧ value * 2 ^ 53 ≤ power * 2 ^ 53 + power ∧
      power * 2 ^ 53 ≤ value * 2 ^ 53 + power ∧ (n ≤ 22 → value = power))
  | _ => false

theorem tenToIsNear_of_le {n : ℕ} (hn : n ≤ 64) : tenToIsNear n = true := by
  have hall : ∀ k < 65, tenToIsNear k = true := by decide +kernel
  exact hall n (by omega)

theorem denotes_tenTo {n : ℕ} (hn : n ≤ 64) :
    ∃ v, Denotes (tenTo n) v ∧ Near 53 (10 ^ n) v ∧ (n ≤ 22 → v = 10 ^ n) := by
  have hnear := tenToIsNear_of_le hn
  rw [tenToIsNear] at hnear
  split at hnear
  · rename_i m e hm hunpack
    obtain ⟨hlow, he, hle, hge, hexact⟩ := of_decide_eq_true hnear
    obtain ⟨k, hk⟩ := Int.eq_ofNat_of_zero_le (by omega : 0 ≤ e + 60)
    have hvalue : (m : ℚ) * 2 ^ e * 2 ^ 60 = (m <<< (e + 60).toNat : ℕ) := by
      rw [Nat.shiftLeft_eq, hk, Int.toNat_natCast, mul_assoc, ← zpow_natCast,
        ← zpow_add₀ two_ne_zero, Nat.cast_ofNat, hk]
      push_cast
      rw [zpow_natCast]
    refine ⟨m * 2 ^ e, ⟨m, e, hm, hunpack, hlow, rfl⟩, ?_, fun hsmall => ?_⟩
    · have hle' : (m : ℚ) * 2 ^ e * 2 ^ 60 * 2 ^ 53 ≤
          10 ^ n * 2 ^ 60 * 2 ^ 53 + 10 ^ n * 2 ^ 60 := by
        rw [hvalue]
        exact_mod_cast hle
      have hge' : (10 : ℚ) ^ n * 2 ^ 60 * 2 ^ 53 ≤
          m * 2 ^ e * 2 ^ 60 * 2 ^ 53 + 10 ^ n * 2 ^ 60 := by
        rw [hvalue]
        exact_mod_cast hge
      rw [Near, ← le_div_iff₀ (by positivity), abs_le]
      constructor <;> linarith
    · have heq : (m : ℚ) * 2 ^ e * 2 ^ 60 = 10 ^ n * 2 ^ 60 := by
        rw [hvalue]
        exact_mod_cast hexact hsmall
      exact mul_right_cancel₀ (by positivity) heq
  · cases hnear

theorem inRange_ten_pow {n : ℕ} (hn : n ≤ 64) : InRange 256 (10 ^ n) := by
  have hlt : 10 ^ n < 2 ^ 256 := (Nat.pow_le_pow_right (by norm_num) hn).trans_lt (by norm_num)
  have hrange := InRange.natCast (by positivity) hlt
  rwa [Nat.cast_pow, Nat.cast_ofNat] at hrange

theorem isInf_eq_false {d : Double} {v : ℚ} (h : Denotes d v) : d.isInf = false := by
  obtain ⟨m, e, hm, hunpack, -⟩ := h
  show d.toModel.unpack.isInf = false
  rw [hunpack]
  rfl

theorem scale?_of_nonneg {n k : ℕ} (hpos : 0 < n) (hk : k ≤ 64)
    (hinf : (doubleOfNat n * tenTo k).isInf = false) :
    scale? n k = some (doubleOfNat n * tenTo k) := by
  simp only [scale?, hpos.ne', if_false, Int.toNat_natCast, hinf, Bool.false_eq_true]
  rw [if_neg (by rw [maxPower]; omega), if_pos (by omega)]

theorem scale?_of_neg {n k : ℕ} (hpos : 0 < n) (hk : k ≤ 64) (hk' : 0 < k) :
    scale? n (-k) = some (doubleOfNat n / tenTo k) := by
  simp only [scale?, hpos.ne', if_false, Int.natAbs_neg, Int.natAbs_natCast]
  rw [if_neg (by rw [maxPower]; omega), if_neg (by omega), if_pos (by rw [maxPower]; omega)]

/-- What a double `w` has to do with the number `y` that it was computed for: it is near to `y`, and
equal to it if every number on the way is a double. -/
structure Approximates (y w : ℚ) (exactly : Prop) : Prop where
  near : Near 51 y w
  eq_of_dyadic : exactly → ∀ (m : ℕ) (j : ℤ), m < 2 ^ 53 → y = m * 2 ^ j → w = y

theorem Approximates.of_isRounded {y z w : ℚ} {exactly : Prop} (hz : Near 52 y z)
    (hexact : exactly → z = y) (hw : IsRounded z w) : Approximates y w exactly := by
  refine ⟨hz.trans hw.near, fun h m j hm hy => ?_⟩
  obtain rfl := hexact h
  exact hw.eq_of_dyadic hm hy

theorem scale?_eq_some {n : ℕ} {e : ℤ} (hpos : 0 < n) (hn : n < 2 ^ 53) (he : e.natAbs ≤ 64) :
    ∃ d w, scale? n e = some d ∧ Denotes d w ∧ Approximates (n * 10 ^ e) w (e.natAbs ≤ 22) := by
  obtain ⟨v, hv, hnear, hexact⟩ := denotes_tenTo he
  have hdouble := denotes_doubleOfNat hpos hn
  have hsize := InRange.natCast hpos hn
  have hvsize := (inRange_ten_pow he).of_near hnear
  have hn' : (0 : ℚ) ≤ n := Nat.cast_nonneg n
  rcases le_or_gt 0 e with hsign | hsign
  · lift e to ℕ using hsign
    rw [Int.natAbs_natCast] at *
    obtain ⟨w, hw, hdenotes⟩ := hdouble.mul hv ((hsize.mul hvsize).mono (by norm_num))
    refine ⟨_, w, scale?_of_nonneg hpos he (isInf_eq_false hdenotes), hdenotes, ?_⟩
    rw [zpow_natCast]
    exact .of_isRounded (hnear.mul_left hn').pred (fun h => by rw [hexact h]) hw
  · obtain ⟨k, rfl⟩ : ∃ k : ℕ, e = -k := ⟨e.natAbs, by omega⟩
    rw [Int.natAbs_neg, Int.natAbs_natCast] at *
    obtain ⟨w, hw, hdenotes⟩ := hdouble.div hv ((hsize.div hvsize).mono (by norm_num))
    refine ⟨_, w, scale?_of_neg hpos he (by omega), hdenotes, ?_⟩
    rw [zpow_neg, zpow_natCast, ← div_eq_mul_inv]
    exact .of_isRounded (hnear.div_left (by positivity) hn') (fun h => by rw [hexact h]) hw

/-! ## The significand of a numeral -/

/-- All digits of a numeral, as one number. -/
def significand (n : Numeral) : ℕ :=
  n.whole * 10 ^ n.fraction.length + Decimal.value n.fraction

/-- The power of ten of the last digit. -/
def power (n : Numeral) : ℤ :=
  n.exponent.getD 0 - n.fraction.length

theorem foldl_digits (n : ℕ) (ds : List Digit) :
    ds.foldl (fun n d => 10 * n + d.val) n = n * 10 ^ ds.length + Decimal.value ds := by
  induction ds generalizing n with
  | nil => simp [Decimal.value]
  | cons d ds ih =>
    have hvalue : Decimal.value (d :: ds) = (10 * 0 + d.val) * 10 ^ ds.length + Decimal.value ds :=
      ih _
    rw [List.foldl_cons, ih, hvalue, List.length_cons, pow_succ]
    ring

/-- Digits that fit the significand are all absorbed. -/
theorem absorb_eq {n : ℕ} {ds : List Digit}
    (h : n * 10 ^ ds.length + Decimal.value ds < UInt64.size) :
    absorb n ds = (n * 10 ^ ds.length + Decimal.value ds, []) := by
  rw [← foldl_digits] at *
  induction ds generalizing n with
  | nil => rfl
  | cons d ds ih =>
    have hrest := h
    rw [List.foldl_cons, foldl_digits] at hrest
    have hpos : 0 < 10 ^ ds.length := by positivity
    have hfirst : 10 * n + d.val < UInt64.size := by nlinarith
    rw [absorb, if_pos hfirst]
    exact ih h

theorem double?_eq {n : Numeral} (h : n.significand < UInt64.size) :
    n.double? = (scale? n.significand n.power).map fun d => if n.negative then -d else d := by
  have hpos : 0 < 10 ^ n.fraction.length := by positivity
  have hwhole : n.whole < UInt64.size := by
    rw [significand] at h
    nlinarith
  have hdigits : absorb 0 (Decimal.digits n.whole) = (n.whole, []) := by
    rw [absorb_eq (by simpa using hwhole), zero_mul, zero_add, Decimal.value_digits]
  rw [double?, hdigits]
  simp only
  rw [absorb_eq h, ← significand, power]
  simp [sub_eq_neg_add]

/-! ## Numerals of scaled decimals -/

theorem length_digitsOfWidth (width n : ℕ) : (Decimal.digitsOfWidth width n).length = width := by
  induction width generalizing n with
  | zero => rfl
  | succ width ih => rw [Decimal.digitsOfWidth, List.length_append, ih, List.length_singleton]

/-- Splitting the digits of a number in front of the last ones does not change the significand. -/
theorem significand_split (negative : Bool) (c width : ℕ) (e : Option ℤ) :
    significand ⟨negative, c / Decimal.tenPow width, Decimal.digitsOfWidth width c, e⟩ = c := by
  rw [significand, length_digitsOfWidth, Decimal.value_digitsOfWidth]
  exact Nat.div_add_mod' c (10 ^ width)

/-- The significand and the power of a numeral are those of the decimal it was made from, unless
zeros were appended. -/
theorem significand_ofScaled (negative : Bool) (c : ℕ) (k : ℤ) :
    let n := ofScaled scalarStyle negative ⟨c, k⟩
    n.negative = negative ∧ n.isInteger = false ∧
      ((n.significand = c ∧ n.power = k) ∨
        (n.significand = c * 10 ^ (k.toNat + 1) ∧ n.power = -1 ∧ 0 ≤ k ∧
          c * 10 ^ k.toNat < 10 ^ 13)) := by
  simp only [ofScaled]
  have hlt := Decimal.lt_pow_length c
  have hpos : 0 < Decimal.length c := Nat.length_toDigits_pos
  split_ifs with hrange hsign
  · refine ⟨rfl, rfl, .inr ⟨?_, rfl, hsign, ?_⟩⟩
    · rw [significand]
      show c * 10 ^ k.toNat * 10 ^ 1 + 0 = _
      ring
    · have hlead : Decimal.length c + k.toNat ≤ 13 := by
        have := hrange.2
        simp only [scalarStyle] at this
        omega
      calc c * 10 ^ k.toNat < 10 ^ Decimal.length c * 10 ^ k.toNat :=
            Nat.mul_lt_mul_of_pos_right hlt (by positivity)
        _ = 10 ^ (Decimal.length c + k.toNat) := (pow_add _ _ _).symm
        _ ≤ 10 ^ 13 := Nat.pow_le_pow_right (by norm_num) hlead
  · refine ⟨rfl, ?_, .inl ⟨significand_split .., ?_⟩⟩
    · obtain ⟨places, hplaces⟩ := Nat.exists_eq_succ_of_ne_zero (by omega : k.natAbs ≠ 0)
      simp [isInteger, hplaces, Decimal.digitsOfWidth]
    · rw [power]
      simp only [length_digitsOfWidth, Option.getD_none]
      omega
  · refine ⟨rfl, by simp [isInteger], .inl ⟨significand_split .., ?_⟩⟩
    rw [power]
    simp only [length_digitsOfWidth, Option.getD_some]
    omega

theorem Approximates.mono {y w : ℚ} {p p' : Prop} (h : Approximates y w p) (hp : p' → p) :
    Approximates y w p' :=
  ⟨h.near, fun h' => h.eq_of_dyadic (hp h')⟩

/-- The scalar of a numeral with few digits, as a number that was rounded twice. -/
theorem scalar?_ofScaled (negative : Bool) {c : ℕ} {k : ℤ} (hpos : 0 < c) (hc : c < 2 ^ 53)
    (hk : k.natAbs ≤ 64) :
    ∃ d w, (ofScaled scalarStyle negative ⟨c, k⟩).scalar? =
        some (Scalar.ofDouble (if negative then -d else d)) ∧
      Denotes d w ∧ Approximates (c * 10 ^ k) w (k.natAbs ≤ 22) := by
  obtain ⟨hnegative, hinteger, hparts⟩ := significand_ofScaled negative c k
  generalize ofScaled scalarStyle negative ⟨c, k⟩ = n at *
  suffices h : ∃ d w, scale? n.significand n.power = some d ∧ n.significand < UInt64.size ∧
      Denotes d w ∧ Approximates (c * 10 ^ k) w (k.natAbs ≤ 22) by
    obtain ⟨d, w, hscale, hsize, hdenotes, happrox⟩ := h
    refine ⟨d, w, ?_, hdenotes, happrox⟩
    rw [scalar?, quantity?, hinteger, double?_eq hsize, hscale, hnegative]
    rfl
  have hsize (m : ℕ) (h : m < 2 ^ 53) : m < UInt64.size := h.trans (by decide)
  rcases hparts with ⟨hsignificand, hpower⟩ | ⟨hsignificand, hpower, hsign, hlt⟩
  · rw [hsignificand, hpower]
    obtain ⟨d, w, hscale, hdenotes, happrox⟩ := scale?_eq_some hpos hc hk
    exact ⟨d, w, hscale, hsize c hc, hdenotes, happrox⟩
  · have hlt' : c * 10 ^ (k.toNat + 1) < 2 ^ 53 := by
      rw [pow_succ, ← mul_assoc]
      omega
    have hvalue : ((c * 10 ^ (k.toNat + 1) : ℕ) : ℚ) * 10 ^ (-1 : ℤ) = c * 10 ^ k := by
      lift k to ℕ using hsign
      rw [Int.toNat_natCast, zpow_natCast, zpow_neg_one, pow_succ]
      push_cast
      ring
    rw [hsignificand, hpower]
    obtain ⟨d, w, hscale, hdenotes, happrox⟩ :=
      scale?_eq_some (by positivity) hlt' (e := -1) (by decide)
    rw [hvalue] at happrox
    exact ⟨d, w, hscale, hsize _ hlt', hdenotes, happrox.mono fun _ => by decide⟩

end Seahorse.Numeral
