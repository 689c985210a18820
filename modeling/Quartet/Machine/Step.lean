/-
  Quartet.Machine.Step
  ────────────────────
  **ONE INSTRUCTION.**

  A step fetches the slot at the program counter, moves the program counter on to the next one and
  carries the instruction out.  All this happens in place: an instruction that fails leaves the
  machine as far as it got, and only then is the fault recorded and the program counter set back.  A
  byte that is mapped to no opcode faults as soon as it is fetched; an opcode with fewer than three
  bytes after it means that the code is exhausted, for more may be loaded later.

  What the definitions stand for: `Machine.step` for `Instance.Step`, `Machine.faultAt` for
  `Instance.fault`, `Machine.register` for `Instance.reg`, which `regs2` and `regs3` repeat,
  `Action.jump` for `Instance.jump`, and `Action.execute` for the cases of `Instance.Step`.
-/
import Quartet.Machine.Basic

namespace Quartet

/-- How a step ended. -/
inductive Signal where
  /-- The instruction was carried out and the next may follow. -/
  | proceed
  /-- The machine stopped: at `hlt` or at the end of the code. -/
  | halted
  /-- The machine is at fault. -/
  | faulted
deriving DecidableEq, Repr

/-- The signals in the order of their numbers. -/
def Signal.all : List Signal := [.proceed, .halted, .faulted]

/-- The word for a signal. -/
def Signal.name : Signal → String
  | .proceed => "continue"
  | .halted => "halted"
  | .faulted => "faulted"

/-- The word for the signal with a given number. -/
def Signal.nameOfNumber (n : Int) : String :=
  if n < 0 then "unknown" else (Signal.all[n.toNat]?.map Signal.name).getD "unknown"

/-- What stands at the program counter. -/
inductive Fetched where
  /-- No whole instruction. -/
  | exhausted
  /-- A byte that is mapped to no opcode. -/
  | illegal (byte : UInt8)
  /-- An instruction. -/
  | slot (op : Opcode) (a b c : UInt8)
deriving DecidableEq, Repr

namespace Machine

/-- Fetches what stands at the program counter. -/
def fetch (m : Machine) : Fetched :=
  match m.pc with
  | .negSucc _ => .exhausted
  | .ofNat i =>
    match m.code[i]? with
    | none => .exhausted
    | some byte =>
      match Opcode.ofByte? byte with
      | none => .illegal byte
      | some op =>
        match m.code[i + 1]?, m.code[i + 2]?, m.code[i + 3]? with
        | some a, some b, some c => .slot op a b c
        | _, _, _ => .exhausted

/-! ## §1. Operands. -/

/-- The register a byte names. -/
def register (byte : UInt8) : Except Cause (Fin registerCount) :=
  if h : byte.toNat < registerCount then .ok ⟨byte.toNat, h⟩ else .error (.invalidRegister byte)

/-- The value of a register. -/
def get (m : Machine) (r : Fin registerCount) : Int32 := m.regs[r]

/-- Puts a value into a register. -/
def set (m : Machine) (r : Fin registerCount) (value : Int32) : Machine :=
  { m with regs := m.regs.set r value }

/-- The number of sixteen bits in two bytes, the higher one first. -/
def word (high low : UInt8) : Int32 := Int32.ofNat (high.toNat * 256 + low.toNat)

end Machine

/-! ## §2. Instructions in place. -/

/-- Something done to a machine in place.  What was written before a failure stays written. -/
abbrev Action (α : Type) : Type := EStateM Cause Machine α

namespace Action

/-- The register a byte names. -/
def register (byte : UInt8) : Action (Fin registerCount) :=
  MonadExcept.ofExcept (Machine.register byte)

/-- Reads a register. -/
def read (r : Fin registerCount) : Action Int32 := return (← get).get r

/-- Writes a register. -/
def write (r : Fin registerCount) (value : Int32) : Action Unit := modify (·.set r value)

/-- Continues at another address, which must lie in the code. -/
def jump (target : Int) : Action Unit := do
  let size := (← get).code.size
  if 0 ≤ target ∧ target < size then modify fun m => { m with pc := target }
  else throw (.jumpOutOfRange target size)

/-- Combines two registers into a third. -/
def combine (f : Int32 → Int32 → Int32) (a b c : UInt8) : Action Unit := do
  let x ← register a
  let y ← register b
  let d ← register c
  write d (f (← read x) (← read y))

/-- Sets the flag to what a comparison of two registers finds. -/
def compare (f : Int32 → Int32 → Bool) (a b : UInt8) : Action Unit := do
  let x ← register a
  let y ← register b
  let found := f (← read x) (← read y)
  modify fun m => { m with flag := found }

/-- Divides a register by another toward zero, and keeps the remainder.  Both are read before the
quotient is written, for that may go to one of them. -/
def divide (a b c : UInt8) : Action Unit := do
  let x ← register a
  let y ← register b
  let d ← register c
  let dividend ← read x
  let divisor ← read y
  if divisor = 0 then throw .divisionByZero
  else do
    write d (dividend / divisor)
    modify fun m => { m with remainder := (dividend % divisor).toUInt32 }

/-- Extends the heap by as many zero bytes as a register says. -/
def allocate (a : UInt8) : Action Unit := do
  let r ← register a
  let size ← read r
  if size < 0 then throw (.negativeAllocation size.toInt)
  else modify fun m => { m with heap := m.heap.append (Array.replicate size.toInt.toNat 0) }

/-- Changes a register. -/
def adjust (f : Int32 → Int32) (a : UInt8) : Action Unit := do
  let r ← register a
  write r (f (← read r))

/-- Jumps to where the program counter and a register lead. -/
def jumpBy (target : Int → Int → Int) (a : UInt8) : Action Unit := do
  let r ← register a
  jump (target (← get).pc (← read r).toInt)

/-- Carries out an instruction on a machine whose program counter is already at the next one. -/
def execute (op : Opcode) (a b c : UInt8) : Action Unit :=
  match op with
  | .hlt => return
  | .load => do write (← register a) (Machine.word b c)
  | .add => combine (· + ·) a b c
  | .sub => combine (· - ·) a b c
  | .mul => combine (· * ·) a b c
  | .div => divide a b c
  | .jmp => jumpBy (fun _ value => value) a
  | .jmpf => jumpBy (· + ·) a
  | .jmpb => jumpBy (· - ·) a
  | .eq => compare (· == ·) a b
  | .neq => compare (· != ·) a b
  | .gt => compare (fun x y => decide (y < x)) a b
  | .lt => compare (fun x y => decide (x < y)) a b
  | .gtq => compare (fun x y => decide (y ≤ x)) a b
  | .ltq => compare (fun x y => decide (x ≤ y)) a b
  | .jmpe => do
    let r ← register a
    if (← get).flag then jump (← read r).toInt else return
  | .aloc => allocate a
  | .inc => adjust (· + 1) a
  | .dec => adjust (· - 1) a

end Action

/-! ## §3. The step. -/

namespace Machine

/-- Records a fault of the instruction at an address and sets the program counter back to it. -/
def faultAt (m : Machine) (pc : Int) (cause : Cause) : Machine :=
  { m with pc := pc, fault := some ⟨pc, cause⟩ }

/-- Carries out one instruction. -/
def step (m : Machine) : Signal × Machine :=
  if m.fault.isSome then (.faulted, m)
  else
    match m.fetch with
    | .exhausted => (.halted, m)
    | .illegal byte => (.faulted, m.faultAt m.pc (.illegalInstruction byte))
    | .slot op a b c =>
      match Action.execute op a b c { m with pc := m.pc + slotSize } with
      | .error cause left => (.faulted, left.faultAt m.pc cause)
      | .ok _ next =>
        (if op = .hlt then .halted else .proceed, { next with count := next.count + 1 })

end Machine

end Quartet
