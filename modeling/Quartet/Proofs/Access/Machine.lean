/-
  Quartet.Proofs.Access.Machine
  ─────────────────────────────
  **A STEP STAYS INSIDE THE CODE AND THE REGISTERS.**

  Functions of the library are total: where something might be missing, they say what happens then.
  Here a step is written once more with the operations of a machine that stops dead if asked for
  something outside:

    • `Checked.item?` — an index outside a list,
    • `Checked.register?` — a register that there is not,
    • `Checked.divide?` — a division by zero,
    • `Checked.zeros?` — a block of memory of negative size.

  Such a step gives `none` as soon as one of these does.  It never does: it gives the same as the
  step of the library (`Checked.step_eq`), whatever the machine, its program counter and its code.
-/
import Quartet.Proofs.Machine.Actions

namespace Quartet

namespace Checked

/-! ## §1. Operations that can fail. -/

/-- The item at an index, which must be inside. -/
def item? {α : Type} (xs : List α) (i : Int) : Option α := if 0 ≤ i then xs[i.toNat]? else none

/-- The register with a number, which must be one of those there are. -/
def register? (index : Nat) : Option (Fin registerCount) :=
  if h : index < registerCount then some ⟨index, h⟩ else none

/-- The quotient toward zero and the remainder; the divisor must not be zero. -/
def divide? (x y : Int32) : Option (Int32 × Int32) := if y = 0 then none else some (x / y, x % y)

/-- A block of zero bytes, whose size must not be negative. -/
def zeros? (size : Int) : Option (Array UInt8) :=
  if size < 0 then none else some (Array.replicate size.toNat 0)

theorem item?_natCast {α : Type} (xs : List α) (i : Nat) : item? xs (i : Int) = xs[i]? := by
  unfold item?
  rw [if_pos (Int.natCast_nonneg i), Int.toNat_natCast]

/-! ## §2. Instructions. -/

/-- Something done to a machine in place, where an operation may fail for good. -/
abbrev Attempt (α : Type) : Type := ExceptT Cause (StateT Machine Option) α

/-- How an action ended, where no operation failed. -/
def ended {α : Type} : EStateM.Result Cause Machine α → Except Cause α × Machine
  | .ok value next => (.ok value, next)
  | .error cause left => (.error cause, left)

/-- An action in which no operation fails. -/
def Attempt.of {α : Type} (x : Action α) : Attempt α := ExceptT.mk fun m => some (ended (x m))

/-- The register a byte names: its number is looked at before the register is taken. -/
def register (byte : UInt8) : Attempt (Fin registerCount) :=
  if registerCount ≤ byte.toNat then throw (.invalidRegister byte)
  else liftM (register? byte.toNat)

/-- Combines two registers into a third. -/
def combine (f : Int32 → Int32 → Int32) (a b c : UInt8) : Attempt Unit := do
  let x ← register a
  let y ← register b
  let d ← register c
  let v ← .of (Action.read x)
  let w ← .of (Action.read y)
  .of (Action.write d (f v w))

/-- Sets the flag to what a comparison of two registers finds. -/
def compare (f : Int32 → Int32 → Bool) (a b : UInt8) : Attempt Unit := do
  let x ← register a
  let y ← register b
  let v ← .of (Action.read x)
  let w ← .of (Action.read y)
  .of (modify fun m => { m with flag := f v w })

/-- Divides a register by another, which is looked at before. -/
def divide (a b c : UInt8) : Attempt Unit := do
  let x ← register a
  let y ← register b
  let d ← register c
  let dividend ← .of (Action.read x)
  let divisor ← .of (Action.read y)
  if divisor = 0 then throw .divisionByZero
  else
    let (quotient, remainder) ← liftM (divide? dividend divisor)
    .of (Action.write d quotient)
    .of (modify fun m => { m with remainder := remainder.toUInt32 })

/-- Extends the heap by as many zero bytes as a register says, which is looked at before. -/
def allocate (a : UInt8) : Attempt Unit := do
  let r ← register a
  let size ← .of (Action.read r)
  if size < 0 then throw (.negativeAllocation size.toInt)
  else
    let more ← liftM (zeros? size.toInt)
    .of (modify fun m => { m with heap := m.heap.append more })

/-- Changes a register. -/
def adjust (f : Int32 → Int32) (a : UInt8) : Attempt Unit := do
  let r ← register a
  let v ← .of (Action.read r)
  .of (Action.write r (f v))

/-- Jumps to where the program counter and a register lead. -/
def jumpBy (f : Int → Int → Int) (a : UInt8) : Attempt Unit := do
  let r ← register a
  let m ← .of get
  let v ← .of (Action.read r)
  .of (Action.jump (f m.pc v.toInt))

/-- Carries out an instruction on a machine whose program counter is already at the next one. -/
def execute (op : Opcode) (a b c : UInt8) : Attempt Unit :=
  match op with
  | .hlt => .of (pure ())
  | .load => do
    let r ← register a
    .of (Action.write r (Machine.word b c))
  | .add => combine (· + ·) a b c
  | .sub => combine (· - ·) a b c
  | .mul => combine (· * ·) a b c
  | .div => divide a b c
  | .jmp => jumpBy (fun _ value => value) a
  | .jmpf => jumpBy (· + ·) a
  | .jmpb => jumpBy (· - ·) a
  | .eq => compare (· == ·) a b
  | .neq => compare (· != ·) a b
  | .gt => compare (fun x y => decide (y < x)) a b
  | .lt => compare (fun x y => decide (x < y)) a b
  | .gtq => compare (fun x y => decide (y ≤ x)) a b
  | .ltq => compare (fun x y => decide (x ≤ y)) a b
  | .jmpe => do
    let r ← register a
    let m ← .of get
    if m.flag then do
      let v ← .of (Action.read r)
      .of (Action.jump v.toInt)
    else .of (pure ())
  | .aloc => allocate a
  | .inc => adjust (· + 1) a
  | .dec => adjust (· - 1) a

theorem Attempt.of_bind {α β : Type} (x : Action α) (f : α → Action β) :
    Attempt.of (x >>= f) = (Attempt.of x >>= fun value => .of (f value)) := by
  funext m
  cases hx : x m with
  | ok value next =>
      have hfirst : Attempt.of x m = some (.ok value, next) := congrArg (some ∘ ended) hx
      have hboth : Attempt.of (x >>= f) m = Attempt.of (f value) next :=
        congrArg (some ∘ ended) (Action.bind_of_ok hx)
      rw [hboth]
      show _ = StateT.bind (Attempt.of x) (ExceptT.bindCont fun value => Attempt.of (f value)) m
      rw [StateT.bind, hfirst]
      rfl
  | error cause left =>
      have hfirst : Attempt.of x m = some (.error cause, left) := congrArg (some ∘ ended) hx
      have hboth : Attempt.of (x >>= f) m = some (.error cause, left) :=
        congrArg (some ∘ ended) (Action.bind_of_error hx)
      rw [hboth]
      show _ = StateT.bind (Attempt.of x) (ExceptT.bindCont fun value => Attempt.of (f value)) m
      rw [StateT.bind, hfirst]
      rfl

theorem Attempt.of_ite {α : Type} (p : Prop) [Decidable p] (x y : Action α) :
    Attempt.of (if p then x else y) = if p then .of x else .of y :=
  apply_ite Attempt.of p x y

/-- A register is only taken if there is one. -/
theorem register_eq (byte : UInt8) : register byte = .of (Action.register byte) := by
  unfold register Action.register Machine.register
  by_cases h : byte.toNat < registerCount
  · rw [if_neg (Nat.not_le_of_lt h), dif_pos h]
    unfold register?
    rw [dif_pos h]
    rfl
  · rw [if_pos (Nat.le_of_not_lt h), dif_neg h]
    rfl

theorem combine_eq (f : Int32 → Int32 → Int32) (a b c : UInt8) :
    combine f a b c = .of (Action.combine f a b c) := by
  simp only [combine, Action.combine, Attempt.of_bind, register_eq]

theorem compare_eq (f : Int32 → Int32 → Bool) (a b : UInt8) :
    compare f a b = .of (Action.compare f a b) := by
  simp only [compare, Action.compare, Attempt.of_bind, register_eq]

/-- Nothing is divided by zero. -/
theorem divide_eq (a b c : UInt8) : divide a b c = .of (Action.divide a b c) := by
  simp only [divide, Action.divide, Attempt.of_bind, Attempt.of_ite, register_eq]
  refine bind_congr fun x => bind_congr fun y => bind_congr fun d => ?_
  refine bind_congr fun dividend => bind_congr fun divisor => ?_
  by_cases hzero : divisor = 0
  · rw [if_pos hzero, if_pos hzero]
    rfl
  · rw [if_neg hzero, if_neg hzero]
    unfold divide?
    rw [if_neg hzero]
    rfl

/-- No block of negative size is asked for. -/
theorem allocate_eq (a : UInt8) : allocate a = .of (Action.allocate a) := by
  simp only [allocate, Action.allocate, Attempt.of_bind, Attempt.of_ite, register_eq]
  refine bind_congr fun r => bind_congr fun size => ?_
  by_cases hneg : size < 0
  · rw [if_pos hneg, if_pos hneg]
    rfl
  · have hsize : ¬size.toInt < 0 := by
      rw [Int32.lt_iff_toInt_lt] at hneg
      exact hneg
    rw [if_neg hneg, if_neg hneg]
    unfold zeros?
    rw [if_neg hsize]
    rfl

theorem adjust_eq (f : Int32 → Int32) (a : UInt8) : adjust f a = .of (Action.adjust f a) := by
  simp only [adjust, Action.adjust, Attempt.of_bind, register_eq]

theorem jumpBy_eq (f : Int → Int → Int) (a : UInt8) : jumpBy f a = .of (Action.jumpBy f a) := by
  simp only [jumpBy, Action.jumpBy, Attempt.of_bind, register_eq]

/-- **No operation of an instruction fails.** -/
theorem execute_eq (op : Opcode) (a b c : UInt8) :
    execute op a b c = .of (Action.execute op a b c) := by
  unfold execute Action.execute
  cases op with
  | hlt => rfl
  | add | sub | mul => exact combine_eq _ a b c
  | div => exact divide_eq a b c
  | eq | neq | gt | lt | gtq | ltq => exact compare_eq _ a b
  | aloc => exact allocate_eq a
  | jmp | jmpf | jmpb => exact jumpBy_eq _ a
  | inc | dec => exact adjust_eq _ a
  | load => simp only [Attempt.of_bind, register_eq]
  | jmpe => simp only [Attempt.of_bind, Attempt.of_ite, register_eq]

/-! ## §3. Steps. -/

/-- Fetches what stands at the program counter, which is looked at before the opcode is fetched, as
is the size of the code before the operands are. -/
def fetch (m : Machine) : Option Fetched :=
  if m.pc < 0 ∨ m.code.size ≤ m.pc then return .exhausted
  else do
    let byte ← item? m.code.toList m.pc
    match Opcode.ofByte? byte with
    | none => return .illegal byte
    | some op =>
      if m.code.size < m.pc + slotSize then return .exhausted
      else
        let a ← item? m.code.toList (m.pc + 1)
        let b ← item? m.code.toList (m.pc + 2)
        let c ← item? m.code.toList (m.pc + 3)
        return .slot op a b c

/-- Carries out one instruction. -/
def step (m : Machine) : Option (Signal × Machine) :=
  if m.fault.isSome then return (.faulted, m)
  else do
    match ← fetch m with
    | .exhausted => return (.halted, m)
    | .illegal byte => return (.faulted, m.faultAt m.pc (.illegalInstruction byte))
    | .slot op a b c =>
      match ← (execute op a b c).run { m with pc := m.pc + slotSize } with
      | (.error cause, left) => return (.faulted, left.faultAt m.pc cause)
      | (.ok _, next) =>
        return (if op = .hlt then .halted else .proceed, { next with count := next.count + 1 })

theorem item?_code (m : Machine) (i k : Nat) :
    item? m.code.toList ((i : Int) + (k : Int)) = m.code[i + k]? := by
  rw [← Int.natCast_add, item?_natCast, Array.getElem?_toList]

/-- **Nothing is fetched from outside the code.** -/
theorem fetch_eq (m : Machine) : fetch m = some m.fetch := by
  by_cases hpc : m.pc < 0 ∨ m.code.size ≤ m.pc
  · unfold fetch
    rw [if_pos hpc]
    unfold Machine.fetch
    cases hcounter : m.pc with
    | negSucc n => rfl
    | ofNat i =>
        have hsize : m.code.size ≤ i := by
          rw [hcounter] at hpc
          exact Int.ofNat_le.mp (hpc.resolve_left (Int.not_lt.mpr (Int.natCast_nonneg i)))
        simp only [Array.getElem?_eq_none hsize]
        rfl
  · obtain ⟨i, hi⟩ : ∃ i : Nat, m.pc = i := ⟨m.pc.toNat, by omega⟩
    have hlt : i < m.code.size := by omega
    unfold fetch Machine.fetch
    rw [if_neg hpc, hi, item?_natCast, Array.getElem?_toList]
    simp only [Array.getElem?_eq_getElem hlt, Option.bind_eq_bind, Option.bind_some]
    cases Opcode.ofByte? m.code[i] with
    | none => rfl
    | some op =>
        have ha : item? m.code.toList ((i : Int) + 1) = m.code[i + 1]? := item?_code m i 1
        have hb : item? m.code.toList ((i : Int) + 2) = m.code[i + 2]? := item?_code m i 2
        have hc : item? m.code.toList ((i : Int) + 3) = m.code[i + 3]? := item?_code m i 3
        simp only [ha, hb, hc]
        by_cases hwhole : (m.code.size : Int) < i + slotSize
        · have hlast : m.code[i + 3]? = none :=
            Array.getElem?_eq_none (by unfold slotSize at hwhole; omega)
          rw [if_pos hwhole, hlast]
          cases m.code[i + 1]? <;> cases m.code[i + 2]? <;> rfl
        · have hsize : i + 3 < m.code.size := by unfold slotSize at hwhole; omega
          rw [if_neg hwhole, Array.getElem?_eq_getElem (show i + 1 < m.code.size by omega),
              Array.getElem?_eq_getElem (show i + 2 < m.code.size by omega),
              Array.getElem?_eq_getElem hsize]
          rfl

/-- **A step never reaches outside the code or the registers.** -/
theorem step_eq (m : Machine) : step m = some m.step := by
  unfold step Machine.step
  by_cases hfault : m.fault.isSome = true
  · rw [if_pos hfault, if_pos hfault]
    rfl
  · rw [if_neg hfault, if_neg hfault, fetch_eq]
    cases m.fetch with
    | exhausted => rfl
    | illegal byte => rfl
    | slot op a b c =>
        show (execute op a b c).run { m with pc := m.pc + slotSize } >>= _ = _
        rw [execute_eq]
        unfold Attempt.of
        simp only [ExceptT.run_mk]
        cases Action.execute op a b c { m with pc := m.pc + slotSize } <;> rfl

/-- Repeats steps, at most `limit` of them, until one does not signal to proceed. -/
def runFor : Nat → Machine → Option (Signal × Machine)
  | 0, m => some (.proceed, m)
  | limit + 1, m => do
    match ← step m with
    | (.proceed, next) => runFor limit next
    | ended => return ended

theorem runFor_eq (limit : Nat) : ∀ m : Machine, runFor limit m = some (m.runFor limit) := by
  induction limit with
  | zero => intro m; rfl
  | succ limit ih =>
      intro m
      unfold runFor Machine.runFor
      rw [step_eq]
      cases m.step with
      | mk signal next =>
          cases signal with
          | proceed => exact ih next
          | halted => rfl
          | faulted => rfl

end Checked

end Quartet
