/-
  Quartet.Machine.Run
  ───────────────────
  **MANY INSTRUCTIONS.**

  A run repeats steps until one does not signal to proceed.  A bounded run also ends after a given
  number of steps.

  What the definitions stand for: `Machine.run` for `Instance.Run`, and `Machine.runFor` for the
  loops over `Instance.Step` that `REPL.run` and the command `run` make.
-/
import Quartet.Machine.Step

namespace Quartet

namespace Machine

/-- Repeats steps, at most `limit` of them, until one does not signal to proceed. -/
def runFor : Nat → Machine → Signal × Machine
  | 0, m => (.proceed, m)
  | limit + 1, m =>
    match m.step with
    | (.proceed, next) => runFor limit next
    | ended => ended

/-- More steps than a counter of 64 bits can count. -/
def horizon : Nat := 0x7FFFFFFFFFFFFFFF

/-- Repeats steps until one does not signal to proceed. -/
def run (m : Machine) : Signal × Machine := m.runFor horizon

/-- The results of the steps of a bounded run, in order. -/
def trace : Nat → Machine → List (Signal × Machine)
  | 0, _ => []
  | limit + 1, m =>
    match m.step with
    | (.proceed, next) => (.proceed, next) :: trace limit next
    | ended => [ended]

/-! ## §1. Bounds. -/

theorem runFor_succ (limit : Nat) (m : Machine) :
    m.runFor (limit + 1) =
      match m.step with
      | (.proceed, next) => next.runFor limit
      | ended => ended := rfl

/-- A bounded run goes on after its first step exactly if that proceeds. -/
theorem runFor_succ_eq_ite (limit : Nat) (m : Machine) :
    m.runFor (limit + 1) = if m.step.1 = .proceed then m.step.2.runFor limit else m.step := by
  rw [runFor_succ]
  split
  · next next hstep => rw [hstep, if_pos rfl]
  · next hstep =>
    rw [if_neg]
    intro hgo
    exact hstep m.step.2 (Prod.ext hgo rfl)

/-- A bounded run that is still going on can be continued. -/
theorem runFor_add {limit : Nat} {m t : Machine} (h : m.runFor limit = (.proceed, t)) (more : Nat) :
    m.runFor (limit + more) = t.runFor more := by
  induction limit generalizing m with
  | zero =>
    simp only [runFor, Prod.mk.injEq, true_and] at h
    rw [h, Nat.zero_add]
  | succ limit ih =>
    rw [Nat.succ_add]
    rw [runFor_succ] at h ⊢
    split at h
    · next next hstep => exact ih h
    · next hstep => exact absurd h (hstep t)

/-- A bounded run that has ended does not change with a larger bound. -/
theorem runFor_of_ended {limit : Nat} {m t : Machine} {g : Signal} (hg : g ≠ .proceed)
    (h : m.runFor limit = (g, t)) (more : Nat) : m.runFor (limit + more) = (g, t) := by
  induction limit generalizing m with
  | zero =>
    simp only [runFor, Prod.mk.injEq] at h
    exact absurd h.1.symm hg
  | succ limit ih =>
    rw [Nat.succ_add]
    rw [runFor_succ] at h ⊢
    split at h
    · exact ih h
    · exact h

end Machine

end Quartet
