import Seahorse.Pacer
import Seahorse.Proofs.ScalarSums

/-!
# What a pacer owes

Whatever times between frames a pacer is told, NaN and infinities among them, it never owes more than
one tick: the elapsed time that it carries on is a number between zero and one interval. An update
that releases fewer ticks than it may has released all that were due.
-/

namespace Seahorse

namespace Scalar

theorem max_zero_nonneg (x : Scalar) : 0 ≤ Scalar.max x 0 := by
  unfold Scalar.max
  split_ifs with h
  · rcases h with hnan | hlt
    · exact absurd hnan (by decide +kernel)
    · obtain ⟨hzero, hx, hrank⟩ := lt_iff_rank.mp hlt
      exact le_iff_rank.mpr ⟨hzero, hx, hrank.le⟩
  · decide +kernel

theorem min_mem {x y : Scalar} (hx : 0 ≤ x) (hy : 0 ≤ y) :
    0 ≤ Scalar.min x y ∧ Scalar.min x y ≤ y := by
  have hnan := (le_iff_rank.mp hy).2.1
  unfold Scalar.min
  split_ifs with h
  · rcases h with hnan' | hlt
    · rw [hnan] at hnan'
      cases hnan'
    · exact ⟨hx, Scalar.le_of_lt hlt⟩
  · exact ⟨hy, Scalar.le_self hnan⟩

theorem isFinite_of_pos {x : Scalar} (hpos : 0 < x) (hinf : x ≠ Float32.inf) :
    x.isFinite = true := by
  obtain ⟨-, hnan, hrank⟩ := lt_iff_rank.mp hpos
  rw [rank_zero] at hrank
  show x.toModel.unpack.isFinite = true
  cases hx : x.toModel.unpack with
  | finite s m e hm => rfl
  | zero s => rfl
  | notANumber => exact absurd hx (isNaN_eq_false_iff.mp hnan)
  | infinity s =>
    exfalso
    cases s with
    | positive =>
      apply hinf
      rw [eq_of_unpack hx]
      decide +kernel
    | negative =>
      rw [rank, hx] at hrank
      exact absurd hrank (not_lt.mpr (neg_nonpos.mpr Binary.limit_pos.le))

end Scalar

namespace Pacer

/-- What is done to a pacer. -/
inductive Op where
  /-- Let time go by. -/
  | update (dt : Scalar)
  /-- Make the next tick due at once. -/
  | reset
  deriving DecidableEq

/-- The pacer after an operation. -/
def perform (p : Pacer) : Op → Pacer
  | .update dt => (p.update dt).2
  | .reset => p.reset

/-- The pacer after operations in turn. -/
def performAll (p : Pacer) (ops : List Op) : Pacer :=
  ops.foldl perform p

/-! ## What is kept -/

/-- The elapsed time is at least zero and at most one interval, and the interval is one that counts. -/
structure Balanced (p : Pacer) : Prop where
  epsilon_le : Scalar.epsilon ≤ p.interval
  isFinite : p.interval.isFinite = true
  nonneg : 0 ≤ p.elapsed
  le_interval : p.elapsed ≤ p.interval

section Balanced

variable {p : Pacer} (h : p.Balanced)
include h

theorem Balanced.interval_pos : 0 < p.interval :=
  Scalar.lt_of_lt_of_le (by decide +kernel) h.epsilon_le

theorem Balanced.isNaN_interval : p.interval.isNaN = false :=
  Scalar.isNaN_eq_false_of_isFinite h.isFinite

theorem Balanced.reset : p.reset.Balanced where
  epsilon_le := h.epsilon_le
  isFinite := h.isFinite
  nonneg := Scalar.le_of_lt h.interval_pos
  le_interval := Scalar.le_self h.isNaN_interval

end Balanced

theorem balanced_ofInterval {interval : Scalar} (hinf : interval ≠ Float32.inf) :
    (ofInterval interval).Balanced := by
  have hepsilon : (0 : Scalar) < Scalar.epsilon := by decide +kernel
  -- the interval that is used: the given one where that is large enough, else the least one
  have heffective : ∀ i, Scalar.epsilon ≤ i → i.isFinite = true → (⟨i, i⟩ : Pacer).Balanced := by
    intro i hle hfinite
    exact ⟨hle, hfinite, Scalar.le_of_lt (Scalar.lt_of_lt_of_le hepsilon hle),
      Scalar.le_self (Scalar.isNaN_eq_false_of_isFinite hfinite)⟩
  unfold ofInterval Scalar.max
  split_ifs with hmax
  · rcases hmax with hnan | hlt
    · exact absurd hnan (by decide +kernel)
    · have hle := Scalar.le_of_lt hlt
      exact heffective interval hle
        (Scalar.isFinite_of_pos (Scalar.lt_of_lt_of_le hepsilon hle) hinf)
  · exact heffective Scalar.epsilon (by decide +kernel) (by decide +kernel)

/-- **Step.** Taking intervals never leads below zero, and it ends early only when less than an
interval is left. -/
theorem take_spec {interval : Scalar} (hfinite : interval.isFinite = true) (count : ℕ)
    {elapsed : Scalar} (h : 0 ≤ elapsed) :
    0 ≤ (take interval count elapsed).2 ∧
      ((take interval count elapsed).1 < count → (take interval count elapsed).2 < interval) := by
  induction count generalizing elapsed with
  | zero => exact ⟨h, fun hlt => absurd hlt (Nat.not_lt_zero _)⟩
  | succ count ih =>
    unfold take
    by_cases hle : interval ≤ elapsed
    · rw [if_pos hle]
      obtain ⟨hrest, hearly⟩ := ih (Scalar.sub_nonneg hle hfinite)
      exact ⟨hrest, fun hlt => hearly (Nat.lt_of_succ_lt_succ hlt)⟩
    · rw [if_neg hle]
      have hnan := (Scalar.le_iff_rank.mp h).2.1
      exact ⟨h, fun _ => Scalar.lt_of_not_le hnan (Scalar.isNaN_eq_false_of_isFinite hfinite) hle⟩

theorem elapsed_update (p : Pacer) (dt : Scalar) : (p.update dt).2.elapsed =
    if (p.update dt).1 = maxTicks
    then Scalar.min (take p.interval maxTicks (p.elapsed + Scalar.max dt 0)).2 p.interval
    else (take p.interval maxTicks (p.elapsed + Scalar.max dt 0)).2 :=
  rfl

section Update

variable {p : Pacer} (h : p.Balanced) (dt : Scalar)
include h

/-- An update that releases fewer ticks than it may leaves less than an interval. -/
theorem elapsed_update_lt (hlt : (p.update dt).1 < maxTicks) :
    (p.update dt).2.elapsed < (p.update dt).2.interval := by
  have hsum := Scalar.add_nonneg h.nonneg (Scalar.max_zero_nonneg dt)
  rw [elapsed_update, if_neg hlt.ne]
  exact (take_spec h.isFinite maxTicks hsum).2 hlt

theorem Balanced.update : (p.update dt).2.Balanced := by
  have hsum := Scalar.add_nonneg h.nonneg (Scalar.max_zero_nonneg dt)
  obtain ⟨hrest, -⟩ := take_spec h.isFinite maxTicks hsum
  have hmem : 0 ≤ (p.update dt).2.elapsed ∧ (p.update dt).2.elapsed ≤ p.interval := by
    by_cases hdue : (p.update dt).1 = maxTicks
    · rw [elapsed_update, if_pos hdue]
      exact Scalar.min_mem hrest (Scalar.le_of_lt h.interval_pos)
    · have hlt := lt_of_le_of_ne (take_fst_le p.interval maxTicks _) hdue
      refine ⟨?_, Scalar.le_of_lt (elapsed_update_lt h dt hlt)⟩
      rw [elapsed_update, if_neg hdue]
      exact hrest
  exact ⟨h.epsilon_le, h.isFinite, hmem.1, hmem.2⟩

/-- When no time goes by, the one tick is due that the elapsed time is enough for. -/
theorem update_zero : (p.update 0).1 = if p.interval ≤ p.elapsed then 1 else 0 := by
  have hmax : Scalar.max 0 0 = 0 := by decide +kernel
  show (take p.interval maxTicks (p.elapsed + Scalar.max 0 0)).1 = _
  rw [hmax, maxTicks, take]
  by_cases hle : p.interval ≤ p.elapsed
  · obtain ⟨hrank, hnan⟩ := Scalar.rank_add_zero p.elapsed
    obtain ⟨-, hnan', hge⟩ := Scalar.le_iff_rank.mp hle
    obtain ⟨-, -, hpos⟩ := Scalar.lt_iff_rank.mp h.interval_pos
    obtain ⟨-, -, hrank'⟩ := Scalar.le_iff_rank.mp h.le_interval
    rw [Scalar.rank_zero] at hpos
    -- all that is carried is one interval, and nothing is left of it
    have hone : p.elapsed + 0 = p.interval :=
      Scalar.eq_of_rank_eq (hnan.trans hnan') h.isNaN_interval (by omega) (by omega)
    rw [if_pos hle, if_pos (Scalar.le_add_zero_iff.mpr hle), hone, Scalar.sub_self h.isFinite, take,
      if_neg (Scalar.not_le_of_lt h.interval_pos)]
  · rw [if_neg hle, if_neg (mt Scalar.le_add_zero_iff.mp hle)]

end Update

/-- **Run.** Whatever is done to a balanced pacer, it stays balanced and keeps its interval. -/
theorem Balanced.performAll {p : Pacer} (h : p.Balanced) (ops : List Op) :
    (p.performAll ops).Balanced ∧ (p.performAll ops).interval = p.interval := by
  induction ops generalizing p with
  | nil => exact ⟨h, rfl⟩
  | cons op ops ih =>
    cases op with
    | update dt => exact ih (h.update dt)
    | reset => exact ih h.reset

/-- **A pacer owes at most one tick.** For every interval but the positive infinity, after any updates
and resets: the interval in use is the given one, but at least the least that counts; the elapsed
time is a number between zero and the interval; an update releases at most `maxTicks` ticks, and no
more are due at once after one that releases fewer, and at most one after one that releases
`maxTicks`; and after a reset, as at first, exactly one is due at once. -/
theorem backlog_of_operations {interval : Scalar} (hinf : interval ≠ Float32.inf) (ops : List Op) :
    let p := (ofInterval interval).performAll ops
    (p.interval = Scalar.max interval Scalar.epsilon ∧ Scalar.epsilon ≤ p.interval) ∧
    (p.elapsed.isNaN = false ∧ 0 ≤ p.elapsed ∧ p.elapsed ≤ p.interval) ∧
    (∀ dt, let due := (p.update dt).1
      let q := (p.update dt).2
      due ≤ maxTicks ∧
      (due < maxTicks → q.elapsed < q.interval ∧ (q.update 0).1 = 0) ∧
      (due = maxTicks → (q.update 0).1 ≤ 1)) ∧
    ((ofInterval interval).update 0).1 = 1 ∧ (p.reset.update 0).1 = 1 := by
  intro p
  have hfirst := balanced_ofInterval hinf
  obtain ⟨hp, hsame⟩ : p.Balanced ∧ p.interval = (ofInterval interval).interval :=
    hfirst.performAll ops
  refine ⟨⟨hsame, hp.epsilon_le⟩, ⟨?_, hp.nonneg, hp.le_interval⟩, fun dt => ⟨?_, ?_, ?_⟩, ?_, ?_⟩
  · exact (Scalar.le_iff_rank.mp hp.nonneg).2.1
  · exact take_fst_le p.interval maxTicks _
  · intro hlt
    have hless := elapsed_update_lt hp dt hlt
    exact ⟨hless, (update_zero (hp.update dt)).trans (if_neg (Scalar.not_le_of_lt hless))⟩
  · intro _
    show ((p.update dt).2.update 0).1 ≤ 1
    rw [update_zero (hp.update dt)]
    split_ifs <;> decide
  · exact (update_zero hfirst).trans (if_pos hfirst.le_interval)
  · exact (update_zero hp.reset).trans (if_pos hp.reset.le_interval)

/-- A pacer whose interval is no number, after frames of endless, negative and unknown length. -/
theorem backlog_of_operations_notANumber :
    let ops : List Op := [.update Float32.inf, .update Scalar.notANumber, .reset, .update (-1)]
    let p := (ofInterval Scalar.notANumber).performAll ops
    Scalar.notANumber ≠ Float32.inf ∧ p.interval = Scalar.epsilon ∧
      0 ≤ p.elapsed ∧ p.elapsed ≤ p.interval ∧ (p.reset.update 0).1 = 1 := by
  intro ops p
  have hne : Scalar.notANumber ≠ Float32.inf := by decide +kernel
  obtain ⟨⟨hinterval, -⟩, ⟨-, hnonneg, hle⟩, -, -, hreset⟩ := backlog_of_operations hne ops
  have hmax : Scalar.max Scalar.notANumber Scalar.epsilon = Scalar.epsilon := by decide +kernel
  exact ⟨hne, hinterval.trans hmax, hnonneg, hle, hreset⟩

-- without the hypothesis, the first update leaves no number
example : ((ofInterval Float32.inf).update 0).2.elapsed.isNaN = true := by decide +kernel

end Pacer

end Seahorse
