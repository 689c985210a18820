/-
  Quartet.Proofs.Machine.Bounds
  ─────────────────────────────
  **ONE RUN UNDER ANY BOUND.**

  The machine is run in three places: without a bound, by the command that runs a file, which takes a
  bound above zero, and in a session, whose bound may also be zero.  All three repeat steps until one
  does not proceed, and a bound only cuts that short:

    • `Machine.Proceeds` — a number of steps that all proceed,
    • `Machine.Returns` — a run without bound that returns, with the number of its steps,
    • `Machine.Returns.runFor_of_le`, `Machine.Returns.exists_proceeds` — what a bounded run does from
      there, under a bound that is large enough and under one that is not,
    • `loops_agree` — the same for the loops of the command and the session.
-/
import Quartet.CommandLine.Run
import Quartet.Proofs.Session.Replies

namespace Quartet

namespace Machine

/-! ## §1. Runs without bound. -/

/-- From `m`, a number of steps lead to a machine, and each of them proceeds. -/
inductive Proceeds (m : Machine) : Nat → Machine → Prop
  | refl : Proceeds m 0 m
  | step {n : Nat} {t u : Machine} (h : Proceeds m n t) (hstep : t.step = (.proceed, u)) :
      Proceeds m (n + 1) u

/-- From `m`, a run without bound returns a signal in a state, after a number of steps: the last one
does not proceed and those before it do. -/
inductive Returns (m : Machine) : Nat → Signal → Machine → Prop
  | last {n : Nat} {u t : Machine} {g : Signal} (h : m.Proceeds n u) (hstep : u.step = (g, t))
      (hg : g ≠ .proceed) : Returns m (n + 1) g t

theorem runFor_one (m : Machine) : m.runFor 1 = m.step := by
  rw [runFor_succ_eq_ite]
  by_cases hgo : m.step.1 = .proceed
  · rw [if_pos hgo]
    exact Prod.ext hgo.symm rfl
  · rw [if_neg hgo]

/-- Steps that proceed are what a run does under a bound of as many. -/
theorem Proceeds.runFor_eq {m u : Machine} {n : Nat} (h : m.Proceeds n u) :
    m.runFor n = (.proceed, u) := by
  induction h with
  | refl => rfl
  | @step n t u _ hstep ih => rw [runFor_add ih 1, runFor_one, hstep]

/-- A run that is cut short by its bound has taken as many steps, and all of them proceeded. -/
theorem proceeds_of_runFor {m u : Machine} {n : Nat} (h : m.runFor n = (.proceed, u)) :
    m.Proceeds n u := by
  induction n generalizing u with
  | zero =>
      rw [← (Prod.mk.inj h).2]
      exact Proceeds.refl
  | succ n ih =>
      -- after the first `n` steps the run is still going on, for else it would have ended
      cases hfirst : m.runFor n with
      | mk g t =>
          by_cases hg : g = .proceed
          · rw [hg] at hfirst
            rw [runFor_add hfirst 1, runFor_one] at h
            exact Proceeds.step (ih hfirst) h
          · rw [runFor_of_ended hg hfirst 1] at h
            exact absurd (Prod.mk.inj h).1 hg

/-- Of steps that all proceed, any number can be taken first. -/
theorem Proceeds.exists_of_le {m u : Machine} {n i : Nat} (h : m.Proceeds n u) (hi : i ≤ n) :
    ∃ t, m.Proceeds i t := by
  induction h with
  | refl =>
      rw [Nat.le_zero.mp hi]
      exact ⟨m, Proceeds.refl⟩
  | @step n t u h hstep ih =>
      by_cases hlast : i = n + 1
      · rw [hlast]
        exact ⟨u, Proceeds.step h hstep⟩
      · exact ih (by omega)

namespace Returns

variable {m t : Machine} {k : Nat} {g : Signal}

theorem pos (h : m.Returns k g t) : 0 < k := by
  cases h with
  | last _ _ _ => exact Nat.succ_pos _

/-- **Under a bound that is not below the number of its steps, the run returns as it does without.** -/
theorem runFor_of_le (h : m.Returns k g t) {n : Nat} (hn : k ≤ n) : m.runFor n = (g, t) := by
  cases h with
  | @last i u _ _ h hstep hg =>
      have hend : m.runFor (i + 1) = (g, t) := by rw [runFor_add h.runFor_eq 1, runFor_one, hstep]
      have hmore := runFor_of_ended hg hend (n - (i + 1))
      rwa [show i + 1 + (n - (i + 1)) = n by omega] at hmore

/-- **Under a smaller bound it is cut short**, after as many steps, which all proceed. -/
theorem exists_proceeds (h : m.Returns k g t) {n : Nat} (hn : n < k) : ∃ u, m.Proceeds n u := by
  cases h with
  | last h _ _ => exact h.exists_of_le (by omega)

end Returns

/-- A bounded run that is not cut short returns without a bound, too. -/
theorem exists_returns {m t : Machine} {g : Signal} {n : Nat} (hg : g ≠ .proceed)
    (h : m.runFor n = (g, t)) : ∃ k, k ≤ n ∧ m.Returns k g t := by
  induction n with
  | zero => exact absurd (Prod.mk.inj h).1.symm hg
  | succ n ih =>
      cases hfirst : m.runFor n with
      | mk g' u =>
          by_cases hgo : g' = .proceed
          · -- all steps before the last proceeded
            rw [hgo] at hfirst
            rw [runFor_add hfirst 1, runFor_one] at h
            exact ⟨n + 1, Nat.le_refl _, Returns.last (proceeds_of_runFor hfirst) h hg⟩
          · -- the run had ended before
            rw [runFor_of_ended hgo hfirst 1] at h
            obtain ⟨k, hk, hreturns⟩ := ih (hfirst.trans h)
            exact ⟨k, by omega, hreturns⟩

/-- A run returns exactly if it does so within the horizon. -/
theorem run_eq_iff {m t : Machine} {g : Signal} (hg : g ≠ .proceed) :
    m.run = (g, t) ↔ ∃ k, k ≤ horizon ∧ m.Returns k g t := by
  constructor
  · intro h
    exact exists_returns hg h
  · rintro ⟨k, hk, hreturns⟩
    exact hreturns.runFor_of_le hk

theorem runWithin_of_pos (m : Machine) {bound : Int} (h : 0 < bound) :
    m.runWithin bound = m.runFor bound.toNat :=
  if_pos h

end Machine

/-! ## §2. Runs in a session. -/

namespace Session

/-- The session with another machine and another bound. -/
def on (s : Session) (m : Machine) (bound : Int) : Session := { s with machine := m, maxSteps := bound }

/-- The reply to a run that ended with a signal in a state. -/
def ended (s : Session) (g : Signal) (t : Machine) : Reply where
  session := { s with machine := t }
  output :=
    if g = .proceed then
      [ascii "stopped after " ++ decimal s.maxSteps ++ ascii " steps at " ++ decimal t.pc
        ++ ascii "\n"]
    else report g t

theorem runMachine_of_runFor {s : Session} {g : Signal} {t : Machine}
    (h : s.machine.runFor s.maxSteps.toNat = (g, t)) : s.runMachine = s.ended g t := by
  rw [runMachine_eq, h]
  rfl

/-- No report starts like the reply to a run that is cut short. -/
theorem report_ne_stopped (g : Signal) (t : Machine) (tail : Bytes) :
    report g t ≠ [asciiByte 's' :: tail] := by
  unfold report
  cases g with
  | proceed => simp
  | halted => simp [ascii, asciiByte]
  | faulted =>
      cases t.fault with
      | none => simp
      | some f => simp [ascii, asciiByte]

/-- The reply tells whether the run was cut short, and in which state. -/
theorem ended_eq_proceed {s : Session} {g : Signal} {t u : Machine}
    (h : s.ended g t = s.ended .proceed u) : g = .proceed ∧ t = u := by
  refine ⟨?_, congrArg (fun r => r.session.machine) h⟩
  by_cases hg : g = .proceed
  · exact hg
  · have houtput : (s.ended g t).output = (s.ended .proceed u).output := congrArg Reply.output h
    rw [show (s.ended g t).output = report g t from if_neg hg] at houtput
    exact absurd houtput (report_ne_stopped g t _)

end Session

/-- **The three loops agree.**  Let a run without bound return a signal in a state after `k` steps.
Under a bound of `k` or more, the loop of the command and that of the session end with the same
signal in the same state; under a smaller bound they are cut short after as many steps, all of which
proceeded.  And a loop that was cut short, followed by another one, ends as one loop does under the
sum of the two bounds. -/
theorem loops_agree (m : Machine) (s : Session) :
    (∀ k g t, m.Returns k g t →
      (k ≤ Machine.horizon → m.run = (g, t)) ∧
      (∀ N : Int, k ≤ N →
        m.runWithin N = (g, t) ∧ (s.on m N).runMachine = (s.on m N).ended g t) ∧
      ∀ N : Int, 0 ≤ N → N < k → ∃ u, m.Proceeds N.toNat u ∧
        (0 < N → m.runWithin N = (.proceed, u)) ∧
        (s.on m N).runMachine = (s.on m N).ended .proceed u) ∧
    (∀ g t, g ≠ .proceed → m.run = (g, t) → ∃ k, m.Returns k g t) ∧
    (∀ (N M : Int) u, 0 < N → 0 < M → m.runWithin N = (.proceed, u) →
      m.runWithin (N + M) = u.runWithin M) ∧
    ∀ (N M : Int) u, 0 ≤ N → 0 ≤ M → (s.on m N).runMachine = (s.on m N).ended .proceed u →
      ∃ g t, (s.on m (N + M)).runMachine = (s.on m (N + M)).ended g t ∧
        (s.on u M).runMachine = (s.on u M).ended g t := by
  refine ⟨?_, ?_, ?_, ?_⟩
  · intro k g t hreturns
    have hpos := hreturns.pos
    refine ⟨fun hk => hreturns.runFor_of_le hk, ?_, ?_⟩
    · intro N hN
      have hrun : m.runFor N.toNat = (g, t) := hreturns.runFor_of_le (by omega)
      rw [m.runWithin_of_pos (by omega)]
      exact ⟨hrun, Session.runMachine_of_runFor hrun⟩
    · intro N hN hlt
      obtain ⟨u, hu⟩ := hreturns.exists_proceeds (n := N.toNat) (by omega)
      refine ⟨u, hu, ?_, Session.runMachine_of_runFor hu.runFor_eq⟩
      intro hpos'
      rw [m.runWithin_of_pos hpos']
      exact hu.runFor_eq
  · intro g t hg hrun
    obtain ⟨k, -, hreturns⟩ := (Machine.run_eq_iff hg).mp hrun
    exact ⟨k, hreturns⟩
  · intro N M u hN hM hrun
    rw [m.runWithin_of_pos hN] at hrun
    rw [m.runWithin_of_pos (by omega), u.runWithin_of_pos hM,
      show (N + M).toNat = N.toNat + M.toNat by omega]
    exact Machine.runFor_add hrun _
  · intro N M u hN hM hreply
    -- the reply tells how the first loop ended
    obtain ⟨hsignal, hstate⟩ :=
      Session.ended_eq_proceed ((Session.runMachine_of_runFor rfl).symm.trans hreply)
    have hrun : m.runFor N.toNat = (.proceed, u) := Prod.ext hsignal hstate
    have hsum : m.runFor (N + M).toNat = u.runFor M.toNat := by
      rw [show (N + M).toNat = N.toNat + M.toNat by omega]
      exact Machine.runFor_add hrun _
    exact ⟨_, _, Session.runMachine_of_runFor hsum, Session.runMachine_of_runFor rfl⟩

/-- Two instructions and a stop. -/
def boundsSample : Machine := Machine.fresh.load [17, 1, 0, 0, 17, 1, 0, 0, 0, 0, 0, 0]

/-- The machine after so many steps of them. -/
def boundsAfter (n : Nat) : Machine := (boundsSample.runFor n).2

theorem loops_agree_sample :
    boundsSample.Returns 3 .halted (boundsAfter 3) ∧
    boundsSample.runWithin 0 = (.halted, boundsAfter 3) ∧
    boundsSample.runWithin 3 = (.halted, boundsAfter 3) ∧
    boundsSample.runWithin 2 = (.proceed, boundsAfter 2) ∧
    (Session.on {} boundsSample 3).runMachine.output = [ascii "halted at 12\n"] ∧
    (Session.on {} boundsSample 0).runMachine.output = [ascii "stopped after 0 steps at 0\n"] ∧
    boundsSample.runWithin (2 + 1) = (boundsAfter 2).runWithin 1 := by
  have hreturns : boundsSample.Returns 3 .halted (boundsAfter 3) :=
    .last (.step (.step .refl rfl) rfl) rfl (by decide)
  obtain ⟨hbound, -, hsum, -⟩ := loops_agree boundsSample {}
  obtain ⟨hrun, hlarge, hsmall⟩ := hbound 3 .halted (boundsAfter 3) hreturns
  obtain ⟨hwithin, hreply⟩ := hlarge 3 (by decide)
  have hcut : boundsSample.runWithin 2 = (.proceed, boundsAfter 2) := by
    obtain ⟨u, hu, htwo, -⟩ := hsmall 2 (by decide) (by decide)
    have hafter : boundsSample.runFor 2 = (.proceed, u) := hu.runFor_eq
    rw [htwo (by decide), boundsAfter, hafter]
  have hzero : (Session.on {} boundsSample 0).runMachine.output =
      [ascii "stopped after 0 steps at 0\n"] := by
    obtain ⟨u, hu, -, hnone⟩ := hsmall 0 (by decide) (by decide)
    rw [hnone, show u = boundsSample from (Prod.mk.inj hu.runFor_eq).2.symm]
    decide
  refine ⟨hreturns, hrun (by decide), hwithin, hcut, ?_, hzero, ?_⟩
  · rw [hreply]
    decide
  · exact hsum 2 1 (boundsAfter 2) (by decide) (by decide) hcut

end Quartet
