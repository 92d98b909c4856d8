import Seahorse.Scalar

/-!
# Pacing

A pacer turns the uneven times between frames into ticks at an even interval. The first tick is due
at once. After a long pause only a few ticks are made up for.
-/

namespace Seahorse

/-- A clock that releases ticks. -/
structure Pacer where
  /-- The seconds between two ticks. -/
  interval : Scalar
  /-- The seconds that have gone by and not been used for a tick. -/
  elapsed : Scalar
  deriving DecidableEq, Repr

namespace Pacer

/-- The most ticks that one update releases. -/
def maxTicks : Nat := 4

/-- A pacer with an interval that is not too small to count, and its first tick due. -/
def ofInterval (interval : Scalar) : Pacer :=
  let interval := Scalar.max interval Scalar.epsilon
  ⟨interval, interval⟩

/-- Makes the next tick due at once. -/
def reset (p : Pacer) : Pacer :=
  { p with elapsed := p.interval }

/-- Takes intervals from the elapsed time, at most `count` of them, and tells how many. -/
def take (interval : Scalar) : Nat → Scalar → Nat × Scalar
  | 0, elapsed => (0, elapsed)
  | count + 1, elapsed =>
    if interval ≤ elapsed then
      let (taken, rest) := take interval count (elapsed - interval)
      (taken + 1, rest)
    else (0, elapsed)

/-- No more intervals are taken than allowed. -/
theorem take_fst_le (interval : Scalar) (count : Nat) (elapsed : Scalar) :
    (take interval count elapsed).1 ≤ count := by
  induction count generalizing elapsed with
  | zero => simp [take]
  | succ count ih =>
    rw [take]
    split
    · exact Nat.succ_le_succ (ih _)
    · exact Nat.zero_le _

/-- Lets time go by, none if `dt` is negative, and tells how many ticks are due. What is left after
the most ticks is cut down to one interval. -/
def update (p : Pacer) (dt : Scalar) : Nat × Pacer :=
  let (due, rest) := take p.interval maxTicks (p.elapsed + Scalar.max dt 0)
  (due, { p with elapsed := if due = maxTicks then Scalar.min rest p.interval else rest })

end Pacer

end Seahorse
