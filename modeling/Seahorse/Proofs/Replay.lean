import Seahorse.Level.Builtin
import Seahorse.Proofs.Course
import Seahorse.Proofs.Operations

/-!
# Playing again

A start throws away whatever the session held: two sessions on one level that execute nothing cannot
be told apart once a program is started, however they came to be where they are. A start that comes
too early, or has nothing to start, does not happen at all.
-/

namespace Seahorse.Session

/-- Performs operations in turn and keeps each answer with the session after it. -/
def trace (s : Session) : List Op → List (Answer × Session)
  | [] => []
  | op :: ops => s.perform op :: (s.perform op).2.trace ops

@[simp]
theorem trace_cons (s : Session) (op : Op) (ops : List Op) :
    s.trace (op :: ops) = s.perform op :: (s.perform op).2.trace ops := rfl

section Start

variable {s : Session} {program : Program}

/-- A start forgets everything but the level. -/
theorem perform_start_of_not_running (hne : program ≠ []) (h : s.run.phase ≠ .running) :
    s.perform (.start program) = (.done, begun s.level program) := by
  unfold perform
  dsimp only
  rw [start_eq_ok hne h]

theorem perform_start_of_running (hne : program ≠ []) (h : s.run.phase = .running) :
    s.perform (.start program) = (.refused .runInProgress, s) := by
  have hstart : (s.start program).value = .error .runInProgress := by
    simp [start, Run.start, hne, h, Except.map]
  unfold perform
  dsimp only
  rw [hstart]

theorem perform_start_nil (s : Session) : s.perform (.start []) = (.done, s) := rfl

/-- Sessions on one level that execute nothing answer alike from a start on, and are equal after
every operation. -/
theorem trace_start_eq {t : Session} (hlevel : s.level = t.level) (hne : program ≠ [])
    (hs : s.run.phase ≠ .running) (ht : t.run.phase ≠ .running) (later : List Op) :
    s.trace (.start program :: later) = t.trace (.start program :: later) := by
  rw [trace_cons, trace_cons, perform_start_of_not_running hne hs,
    perform_start_of_not_running hne ht, hlevel]

end Start

/-- **No run leaves a trace in the next.** On a level that can be played, take any two histories that
end with nothing being executed. From the start of a program on, whatever operations follow, they
have the same answers and the same sessions after every operation. While a program is being executed
another start is refused, and an empty program is passed over at any time; neither changes anything,
so that all later answers are those that would have been given without it. -/
theorem replay_of_histories {level : Level} {s : Session} (hs : (prepare level).value = .ok s)
    {program : Program} (hne : program ≠ []) (later : List Op) :
    (∀ past past' : List Op, (s.performAll past).2.run.phase ≠ .running →
      (s.performAll past').2.run.phase ≠ .running →
      (s.performAll past).2.trace (.start program :: later) =
        (s.performAll past').2.trace (.start program :: later)) ∧
    (∀ past : List Op, (s.performAll past).2.run.phase = .running →
      (s.performAll past).2.trace (.start program :: later) =
        (.refused .runInProgress, (s.performAll past).2) :: (s.performAll past).2.trace later) ∧
    (∀ past : List Op, (s.performAll past).2.trace (.start [] :: later) =
      (.done, (s.performAll past).2) :: (s.performAll past).2.trace later) := by
  obtain ⟨-, rfl⟩ := prepare_eq_ok_iff.mp hs
  refine ⟨?_, ?_, ?_⟩
  · intro past past' h h'
    have hlevel : ∀ ops, ((⟨level, Run.fresh level⟩ : Session).performAll ops).2.level = level :=
      performAll_level _
    exact trace_start_eq ((hlevel past).trans (hlevel past').symm) hne h h' later
  · intro past h
    rw [trace_cons, perform_start_of_running hne h]
  · intro past
    rw [trace_cons, perform_start_nil]

/-- The level with the key, its target marked as collected from the outset: after a run that has
collected the key and been drained, the next run is that of a session just prepared. -/
theorem replay_of_histories_markedKey :
    let level : Level :=
      { Level.theLostKey with
        targets := Level.theLostKey.targets.map fun t => { t with collected := true } }
    let s : Session := ⟨level, Run.fresh level⟩
    let program : Program := [.forward, .forward, .turnRight, .forward]
    let past : List Op := [.start program, .tick, .tick, .tick, .tick, .drain]
    let later : List Op := [.tick, .start [.wait], .drain, .reset, .tick]
    (prepare level).value = .ok s ∧ program ≠ [] ∧ (s.performAll past).2.run.phase = .completed ∧
      (s.performAll past).2.trace (.start program :: later) =
        s.trace (.start program :: later) := by
  intro level s program past later
  have hlevel : level.validate = .ok () := by
    rw [Level.validate_eq_ok_iff]
    decide +kernel
  have hs : (prepare level).value = .ok s := prepare_eq_ok_iff.mpr ⟨hlevel, rfl⟩
  have hphase : (s.performAll past).2.run.phase = .completed := by decide +kernel
  obtain ⟨hreplay, -, -⟩ := replay_of_histories hs (show program ≠ [] by decide) later
  refine ⟨hs, by decide, hphase, hreplay past [] ?_ ?_⟩
  · rw [hphase]
    decide
  · decide

end Seahorse.Session
