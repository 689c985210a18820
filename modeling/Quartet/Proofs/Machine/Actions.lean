/-
  Quartet.Proofs.Machine.Actions
  ──────────────────────────────
  **AN INSTRUCTION IS CARRIED OUT AS A WHOLE OR NOT AT ALL.**

  Instructions work on the machine in place, and nothing undoes what one of them wrote before it
  failed.  That none fails after it has written follows from their order: they read and check first
  and write last.

    • `Action.Reads`, `Action.Writes`, `Action.Atomic` — actions that leave the machine alone, that
      cannot fail, and that leave the machine alone if they fail,
    • `Action.atomic_bind` — something atomic may follow what only reads,
    • `Action.atomic_execute` — **every instruction is atomic**, whatever its operands,
    • `Machine.effect` — so an instruction is known from the machine it leads to, or the cause it
      fails for, and `Machine.step_eq_effect` says what a step does in these terms.
-/
import Quartet.Machine.Run

namespace Quartet

namespace Action

variable {α β : Type}

/-! ## §1. Reading, writing and failing. -/

section Bind

variable {x : Action α} {f : α → Action β} {m next left : Machine}

theorem bind_of_ok {value : α} (h : x m = .ok value next) : (x >>= f) m = f value next := by
  show EStateM.bind x f m = _
  rw [EStateM.bind, h]

theorem bind_of_error {cause : Cause} (h : x m = .error cause left) :
    (x >>= f) m = .error cause left := by
  show EStateM.bind x f m = _
  rw [EStateM.bind, h]

end Bind

/-- The action leaves the machine as it is, whether it fails or not. -/
def Reads (x : Action α) : Prop :=
  ∀ m, (∃ value, x m = .ok value m) ∨ ∃ cause, x m = .error cause m

/-- The action does not fail. -/
def Writes (x : Action α) : Prop := ∀ m, ∃ value next, x m = .ok value next

/-- The action leaves the machine as it is if it fails. -/
def Atomic (x : Action α) : Prop := ∀ m cause left, x m = .error cause left → left = m

/-- To fail after a write is possible, and not atomic. -/
example : ¬Atomic (write ⟨0, by decide⟩ 1 >>= fun _ => (throw .divisionByZero : Action Unit)) := by
  intro h
  have hsame : ({} : Machine).set ⟨0, by decide⟩ 1 = {} := h {} .divisionByZero _ rfl
  exact absurd hsame (by decide)

theorem reads_register (byte : UInt8) : Reads (register byte) := by
  intro m
  unfold register
  cases Machine.register byte with
  | ok r => exact Or.inl ⟨r, rfl⟩
  | error cause => exact Or.inr ⟨cause, rfl⟩

theorem reads_get : Reads get := fun m => Or.inl ⟨m, rfl⟩

theorem reads_read (r : Fin registerCount) : Reads (read r) := fun m => Or.inl ⟨m.get r, rfl⟩

theorem Reads.atomic {x : Action α} (h : Reads x) : Atomic x := by
  intro m cause left hx
  rcases h m with ⟨value, hok⟩ | ⟨cause', herror⟩
  · exact absurd (hok.symm.trans hx) nofun
  · exact ((EStateM.Result.error.inj (herror.symm.trans hx)).2).symm

theorem Writes.atomic {x : Action α} (h : Writes x) : Atomic x := by
  intro m cause left hx
  obtain ⟨value, next, hok⟩ := h m
  exact absurd (hok.symm.trans hx) nofun

theorem atomic_pure (value : α) : Atomic (pure value) := fun _ _ _ h => absurd h nofun

theorem atomic_throw (cause : Cause) : Atomic (throw cause : Action α) :=
  Reads.atomic fun _ => Or.inr ⟨cause, rfl⟩

theorem writes_modify (f : Machine → Machine) : Writes (modify f) := fun m => ⟨(), f m, rfl⟩

theorem writes_bind {x : Action α} {f : α → Action β} (hx : Writes x) (hf : ∀ a, Writes (f a)) :
    Writes (x >>= f) := by
  intro m
  obtain ⟨a, next, hok⟩ := hx m
  obtain ⟨b, last, hlast⟩ := hf a next
  exact ⟨b, last, (bind_of_ok hok).trans hlast⟩

/-- **Something atomic may follow what only reads.** -/
theorem atomic_bind {x : Action α} {f : α → Action β} (hx : Reads x) (hf : ∀ a, Atomic (f a)) :
    Atomic (x >>= f) := by
  intro m cause left h
  rcases hx m with ⟨a, hok⟩ | ⟨cause', herror⟩
  · rw [bind_of_ok hok] at h
    exact hf a m cause left h
  · rw [bind_of_error herror] at h
    exact ((EStateM.Result.error.inj h).2).symm

/-! ## §2. Instructions. -/

theorem atomic_jump (target : Int) : Atomic (jump target) := by
  apply atomic_bind reads_get
  intro m
  by_cases hin : 0 ≤ target ∧ target < m.code.size
  · simp only [if_pos hin]
    exact (writes_modify _).atomic
  · simp only [if_neg hin]
    exact atomic_throw _

/-- All three registers are found before anything is written. -/
theorem atomic_combine (f : Int32 → Int32 → Int32) (a b c : UInt8) : Atomic (combine f a b c) := by
  apply atomic_bind (reads_register a)
  intro x
  apply atomic_bind (reads_register b)
  intro y
  apply atomic_bind (reads_register c)
  intro d
  apply atomic_bind (reads_read x)
  intro v
  apply atomic_bind (reads_read y)
  intro w
  exact (writes_modify _).atomic

theorem atomic_compare (f : Int32 → Int32 → Bool) (a b : UInt8) : Atomic (compare f a b) := by
  apply atomic_bind (reads_register a)
  intro x
  apply atomic_bind (reads_register b)
  intro y
  apply atomic_bind (reads_read x)
  intro v
  apply atomic_bind (reads_read y)
  intro w
  exact (writes_modify _).atomic

/-- The divisor is looked at before the first of two writes. -/
theorem atomic_divide (a b c : UInt8) : Atomic (divide a b c) := by
  apply atomic_bind (reads_register a)
  intro x
  apply atomic_bind (reads_register b)
  intro y
  apply atomic_bind (reads_register c)
  intro d
  apply atomic_bind (reads_read x)
  intro dividend
  apply atomic_bind (reads_read y)
  intro divisor
  by_cases hzero : divisor = 0
  · simp only [if_pos hzero]
    exact atomic_throw _
  · simp only [if_neg hzero]
    exact (writes_bind (writes_modify _) fun _ => writes_modify _).atomic

theorem atomic_allocate (a : UInt8) : Atomic (allocate a) := by
  apply atomic_bind (reads_register a)
  intro r
  apply atomic_bind (reads_read r)
  intro size
  by_cases hneg : size < 0
  · simp only [if_pos hneg]
    exact atomic_throw _
  · simp only [if_neg hneg]
    exact (writes_modify _).atomic

theorem atomic_adjust (f : Int32 → Int32) (a : UInt8) : Atomic (adjust f a) := by
  apply atomic_bind (reads_register a)
  intro r
  apply atomic_bind (reads_read r)
  intro v
  exact (writes_modify _).atomic

theorem atomic_jumpBy (target : Int → Int → Int) (a : UInt8) : Atomic (jumpBy target a) := by
  apply atomic_bind (reads_register a)
  intro r
  apply atomic_bind reads_get
  intro m
  apply atomic_bind (reads_read r)
  intro v
  exact atomic_jump _

/-- **Every instruction is atomic.** -/
theorem atomic_execute (op : Opcode) (a b c : UInt8) : Atomic (execute op a b c) := by
  cases op with
  | hlt => exact atomic_pure ()
  | add | sub | mul => exact atomic_combine _ a b c
  | div => exact atomic_divide a b c
  | eq | neq => exact atomic_compare _ a b
  | gt => exact atomic_compare (fun x y => decide (y < x)) a b
  | lt => exact atomic_compare (fun x y => decide (x < y)) a b
  | gtq => exact atomic_compare (fun x y => decide (y ≤ x)) a b
  | ltq => exact atomic_compare (fun x y => decide (x ≤ y)) a b
  | jmp => exact atomic_jumpBy (fun _ value => value) a
  | jmpf => exact atomic_jumpBy (· + ·) a
  | jmpb => exact atomic_jumpBy (· - ·) a
  | aloc => exact atomic_allocate a
  | inc | dec => exact atomic_adjust _ a
  | load =>
      apply atomic_bind (reads_register a)
      intro r
      exact (writes_modify _).atomic
  | jmpe =>
      apply atomic_bind (reads_register a)
      intro r
      apply atomic_bind reads_get
      intro m
      by_cases hflag : m.flag = true
      · simp only [if_pos hflag]
        apply atomic_bind (reads_read r)
        intro v
        exact atomic_jump _
      · simp only [if_neg hflag]
        exact atomic_pure ()

/-- The machine an action leads to, or the cause it fails for. -/
def outcome (x : Action Unit) (m : Machine) : Except Cause Machine :=
  match x m with
  | .ok _ next => .ok next
  | .error cause _ => .error cause

/-- An atomic action is known from its outcome. -/
theorem Atomic.eq_outcome {x : Action Unit} (h : Atomic x) (m : Machine) :
    x m =
      match x.outcome m with
      | .ok next => .ok () next
      | .error cause => .error cause m := by
  unfold outcome
  cases hx : x m with
  | ok value next => rfl
  | error cause left =>
      rw [h m cause left hx]

section Outcome

variable (m : Machine)

-- The parentheses make `simp` keep these steps in its proofs, rather than leave them to the kernel.

@[simp] theorem outcome_pure : (pure () : Action Unit).outcome m = .ok m := (rfl)

@[simp] theorem outcome_throw (cause : Cause) : (throw cause : Action Unit).outcome m = .error cause :=
  (rfl)

@[simp] theorem outcome_modify (f : Machine → Machine) : (modify f : Action Unit).outcome m = .ok (f m) :=
  (rfl)

@[simp] theorem outcome_write (r : Fin registerCount) (value : Int32) :
    (write r value).outcome m = .ok (m.set r value) := (rfl)

@[simp] theorem outcome_write_bind (r : Fin registerCount) (value : Int32) (f : Unit → Action Unit) :
    (write r value >>= f).outcome m = (f ()).outcome (m.set r value) := (rfl)

@[simp] theorem outcome_get_bind (f : Machine → Action Unit) :
    (get >>= f).outcome m = (f m).outcome m := (rfl)

@[simp] theorem outcome_read_bind (r : Fin registerCount) (f : Int32 → Action Unit) :
    (read r >>= f).outcome m = (f (m.get r)).outcome m := (rfl)

@[simp] theorem outcome_register_bind (byte : UInt8) (f : Fin registerCount → Action Unit) :
    (register byte >>= f).outcome m = Machine.register byte >>= fun r => (f r).outcome m := by
  unfold register
  cases Machine.register byte <;> rfl

@[simp] theorem outcome_ite (p : Prop) [Decidable p] (x y : Action Unit) :
    (if p then x else y).outcome m = if p then x.outcome m else y.outcome m :=
  apply_ite (fun x : Action Unit => x.outcome m) p x y

end Outcome

end Action

/-! ## §3. Instructions as functions. -/

namespace Machine

/-- What a jump leads to. -/
def jump (m : Machine) (target : Int) : Except Cause Machine := (Action.jump target).outcome m

/-- What a combination of two registers leads to. -/
def combine (m : Machine) (f : Int32 → Int32 → Int32) (a b c : UInt8) : Except Cause Machine :=
  (Action.combine f a b c).outcome m

/-- What a comparison leads to. -/
def compare (m : Machine) (f : Int32 → Int32 → Bool) (a b : UInt8) : Except Cause Machine :=
  (Action.compare f a b).outcome m

/-- What a division leads to. -/
def divide (m : Machine) (a b c : UInt8) : Except Cause Machine := (Action.divide a b c).outcome m

/-- What an allocation leads to. -/
def allocate (m : Machine) (a : UInt8) : Except Cause Machine := (Action.allocate a).outcome m

/-- What a change of one register leads to. -/
def adjust (m : Machine) (f : Int32 → Int32) (a : UInt8) : Except Cause Machine :=
  (Action.adjust f a).outcome m

/-- What a jump by a register leads to. -/
def jumpBy (m : Machine) (target : Int → Int → Int) (a : UInt8) : Except Cause Machine :=
  (Action.jumpBy target a).outcome m

/-- What an instruction leads to, on a machine whose program counter is already at the next one. -/
def effect (m : Machine) (op : Opcode) (a b c : UInt8) : Except Cause Machine :=
  (Action.execute op a b c).outcome m

section Equations

open Quartet.Action

variable (m : Machine) (a b c : UInt8)

theorem jump_eq (target : Int) :
    m.jump target =
      if 0 ≤ target ∧ target < m.code.size then .ok { m with pc := target }
      else .error (.jumpOutOfRange target m.code.size) := by
  simp only [jump, Action.jump, outcome_get_bind, outcome_ite, outcome_modify, outcome_throw]

theorem combine_eq (f : Int32 → Int32 → Int32) :
    m.combine f a b c = (do
      let x ← register a
      let y ← register b
      let d ← register c
      .ok (m.set d (f (m.get x) (m.get y)))) := by
  simp only [combine, Action.combine, outcome_register_bind, outcome_read_bind, outcome_write]

theorem compare_eq (f : Int32 → Int32 → Bool) :
    m.compare f a b = (do
      let x ← register a
      let y ← register b
      .ok { m with flag := f (m.get x) (m.get y) }) := by
  simp only [compare, Action.compare, outcome_register_bind, outcome_read_bind, outcome_modify]

theorem divide_eq :
    m.divide a b c = (do
      let x ← register a
      let y ← register b
      let d ← register c
      if m.get y = 0 then .error .divisionByZero
      else .ok { m.set d (m.get x / m.get y) with remainder := (m.get x % m.get y).toUInt32 }) := by
  simp only [divide, Action.divide, outcome_register_bind, outcome_read_bind, outcome_ite,
    outcome_throw, outcome_write_bind, outcome_modify]

theorem allocate_eq :
    m.allocate a = (do
      let r ← register a
      if m.get r < 0 then .error (.negativeAllocation (m.get r).toInt)
      else .ok { m with heap := m.heap.append (Array.replicate (m.get r).toInt.toNat 0) }) := by
  simp only [allocate, Action.allocate, outcome_register_bind, outcome_read_bind, outcome_ite,
    outcome_throw, outcome_modify]

theorem adjust_eq (f : Int32 → Int32) :
    m.adjust f a = (do
      let r ← register a
      .ok (m.set r (f (m.get r)))) := by
  simp only [adjust, Action.adjust, outcome_register_bind, outcome_read_bind, outcome_write]

theorem jumpBy_eq (target : Int → Int → Int) :
    m.jumpBy target a = (do
      let r ← register a
      m.jump (target m.pc (m.get r).toInt)) := by
  simp only [jumpBy, Action.jumpBy, jump, outcome_register_bind, outcome_get_bind, outcome_read_bind]

theorem effect_load :
    m.effect .load a b c = (do
      let r ← register a
      .ok (m.set r (word b c))) := by
  simp only [effect, execute, outcome_register_bind, outcome_write]

theorem effect_jmpe :
    m.effect .jmpe a b c = (do
      let r ← register a
      if m.flag then m.jump (m.get r).toInt else .ok m) := by
  simp only [effect, execute, jump, outcome_register_bind, outcome_get_bind, outcome_ite,
    outcome_read_bind, outcome_pure]

end Equations

/-! ## §4. The step. -/

/-- **What a step does**, where an instruction takes effect as a whole or not at all. -/
theorem step_eq_effect (m : Machine) :
    m.step =
      if m.fault.isSome then (.faulted, m)
      else
        match m.fetch with
        | .exhausted => (.halted, m)
        | .illegal byte => (.faulted, m.faultAt m.pc (.illegalInstruction byte))
        | .slot op a b c =>
          match { m with pc := m.pc + slotSize }.effect op a b c with
          | .error cause => (.faulted, m.faultAt m.pc cause)
          | .ok next =>
            (if op = .hlt then .halted else .proceed, { next with count := next.count + 1 }) := by
  unfold step
  by_cases hfault : m.fault.isSome
  · rw [if_pos hfault, if_pos hfault]
  · rw [if_neg hfault, if_neg hfault]
    cases m.fetch with
    | exhausted => rfl
    | illegal byte => rfl
    | slot op a b c =>
        -- what a failed instruction leaves differs from the start in the program counter only
        have hexecute := (Action.atomic_execute op a b c).eq_outcome { m with pc := m.pc + slotSize }
        simp only [hexecute]
        show _ = match (Action.execute op a b c).outcome { m with pc := m.pc + slotSize } with
          | .error cause => _
          | .ok next => _
        cases (Action.execute op a b c).outcome { m with pc := m.pc + slotSize } <;> rfl

end Machine

end Quartet
