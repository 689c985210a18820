/-
  Quartet.Machine.Basic
  ─────────────────────
  **THE STATE OF THE MACHINE.**

  Thirty-two registers of 32 bits, a flag, the remainder of the last division, a heap, read-only
  data and the code.  The program counter is an offset into the code; outside it the machine has
  run out of instructions.  After a fault the machine stands still until it is reset.

  A buffer holds bytes and remembers the most it ever held, because memory that has been taken is
  kept when the buffer is emptied, and memory that was never taken differs from memory that is empty.

  What the definitions stand for: `Machine` for `Instance`, `Machine.load`, `Machine.loadImage`,
  `Machine.reset` and `Machine.clear` for the methods of these names, `Machine.register?` for
  `Instance.Register`, `Setting` and `Machine.configureAll` for `Option` and `Instance.SetOptions`,
  `Machine.dump` for `dumpVM` and `Machine.registerTable` for `REPL.registers`.
-/
import Quartet.Image
import Quartet.Opcode

namespace Quartet

/-! ## §1. Memory that grows. -/

/-- Bytes in memory. -/
structure Buffer where
  /-- The bytes held now. -/
  bytes : Array UInt8 := #[]
  /-- The most bytes held at one time; `none` for a buffer that was never set up. -/
  peak : Option Nat := none
deriving DecidableEq, Repr

namespace Buffer

/-- A buffer set up with `n` zero bytes. -/
def zeros (n : Nat) : Buffer := ⟨Array.replicate n 0, some n⟩

/-- The buffer with all bytes removed; the memory stays. -/
def empty (b : Buffer) : Buffer := { b with bytes := #[] }

/-- The buffer with more bytes at its end.  Adding nothing does not set it up. -/
def append (b : Buffer) (more : Array UInt8) : Buffer :=
  { bytes := b.bytes ++ more
    peak := if more.isEmpty then b.peak else some (max (b.peak.getD 0) (b.bytes.size + more.size)) }

/-- The buffer with another byte at an offset, which must be inside. -/
def set? (b : Buffer) (offset : Int) (value : UInt8) : Option Buffer :=
  if 0 ≤ offset ∧ offset < b.bytes.size then
    some { b with bytes := b.bytes.setIfInBounds offset.toNat value }
  else none

@[simp] theorem bytes_append (b : Buffer) (more : Array UInt8) :
    (b.append more).bytes = b.bytes ++ more := rfl

@[simp] theorem bytes_empty (b : Buffer) : b.empty.bytes = #[] := rfl

end Buffer

/-! ## §2. Why an instruction fails. -/

/-- The causes of a fault. -/
inductive Cause where
  /-- The byte at the program counter is mapped to no opcode. -/
  | illegalInstruction (byte : UInt8)
  /-- The divisor is zero. -/
  | divisionByZero
  /-- A jump would leave a program of the given size. -/
  | jumpOutOfRange (target : Int) (size : Nat)
  /-- An operand names a register that there is not. -/
  | invalidRegister (index : UInt8)
  /-- The heap would be extended by a negative number of bytes. -/
  | negativeAllocation (size : Int)
deriving DecidableEq, Repr

/-- A failed instruction: its address and the cause. -/
structure Fault where
  /-- The address of the instruction. -/
  pc : Int
  /-- Why it failed. -/
  cause : Cause
deriving DecidableEq, Repr

/-- The wording of a refused allocation, without its size. -/
def negativeAllocationText : Bytes := ascii "negative heap allocation"

/-- The wording of a cause. -/
def Cause.message : Cause → Bytes
  | .illegalInstruction byte =>
    ascii "opcode " ++ decimalNat byte.toNat ++ ascii ": illegal instruction"
  | .divisionByZero => ascii "division by zero"
  | .jumpOutOfRange target size =>
    ascii "target " ++ decimal target ++ ascii ", program size " ++ decimalNat size
      ++ ascii ": jump target out of range"
  | .invalidRegister index => ascii "$" ++ decimalNat index.toNat ++ ascii ": invalid register"
  | .negativeAllocation size => decimal size ++ ascii " bytes: " ++ negativeAllocationText

/-- The wording of a fault: the address, then the cause. -/
def Fault.message (f : Fault) : Bytes :=
  ascii "pc=" ++ decimal f.pc ++ ascii ": " ++ f.cause.message

/-! ## §3. The state. -/

/-- The state of the machine. -/
structure Machine where
  /-- The address of the next instruction. -/
  pc : Int := 0
  /-- The registers. -/
  regs : Vector Int32 registerCount := Vector.replicate registerCount 0
  /-- The remainder of the last division. -/
  remainder : UInt32 := 0
  /-- What the last comparison found. -/
  flag : Bool := false
  /-- The heap. -/
  heap : Buffer := {}
  /-- The code. -/
  code : Array UInt8 := #[]
  /-- The read-only data. -/
  data : Buffer := {}
  /-- The number of instructions executed.  It is not bounded; a counter of 64 bits would start again
  below zero after 2 ^ 63 steps, which is out of reach. -/
  count : Nat := 0
  /-- The fault that stopped the machine, if one did. -/
  fault : Option Fault := none
deriving DecidableEq

namespace Machine

/-- A machine without program. -/
def fresh : Machine := {}

/-- Appends bytes to the code. -/
def load (m : Machine) (code : Bytes) : Machine := { m with code := m.code ++ code.toArray }

/-- Takes over the data of a program and appends its code. -/
def loadImage (m : Machine) (img : Image) : Machine :=
  { m with data := m.data.empty.append img.data.toArray }.load img.code

/-- Starts over: everything but the code and the read-only data is cleared. -/
def reset (m : Machine) : Machine :=
  { code := m.code, data := m.data, heap := m.heap.empty }

/-- Starts over without a program. -/
def clear (m : Machine) : Machine :=
  { m.reset with code := #[], data := m.data.empty }

/-- The value of register `i`, if there is one. -/
def register? (m : Machine) (i : Int) : Option Int32 :=
  if 0 ≤ i then m.regs[i.toNat]? else none

@[simp] theorem code_load (m : Machine) (code : Bytes) : (m.load code).code = m.code ++ code.toArray :=
  rfl

/-- Loading in two parts is loading at once. -/
theorem load_append (m : Machine) (first second : Bytes) :
    m.load (first ++ second) = (m.load first).load second := by
  simp [load, ← List.append_toArray, Array.append_assoc]

/-! ## §4. Setting up. -/

/-- A choice made when a machine is set up. -/
inductive Setting where
  /-- A heap of this many zero bytes. -/
  | heapSize (size : Int)
  /-- More code. -/
  | code (bytes : Bytes)
deriving DecidableEq, Repr

/-- Applies one setting; a negative heap size is refused. -/
def configure? (m : Machine) : Setting → Option Machine
  | .heapSize size => if size < 0 then none else some { m with heap := Buffer.zeros size.toNat }
  | .code bytes => some (m.load bytes)

/-- Applies settings in order up to the first that is refused.  The result holds those before it;
the flag tells whether all were taken. -/
def configureAll (m : Machine) : List Setting → Machine × Bool
  | [] => (m, true)
  | s :: rest =>
    match m.configure? s with
    | none => (m, false)
    | some m => m.configureAll rest

end Machine

/-! ## §5. The state as text. -/

/-- A register and its number. -/
def Machine.numbered (m : Machine) : List (Nat × Int32) := m.regs.toList.zipIdx.map fun r => (r.2, r.1)

/-- The state on one line for the registers, one for the rest and one for the heap. -/
def Machine.dump (m : Machine) : List Bytes :=
  (m.numbered.flatMap fun (k, v) =>
    [ascii "$" ++ decimalNat k ++ ascii "=" ++ decimal v.toInt]
      ++ (if k + 1 < registerCount then [ascii " "] else []))
    ++ [ascii "\npc=" ++ decimal m.pc ++ ascii " equal=" ++ boolWord m.flag ++ ascii " remainder="
        ++ decimalNat m.remainder.toNat ++ ascii " instructions=" ++ decimalNat m.count
        ++ ascii "\n",
      ascii "heap=" ++ hexSpaced m.heap.bytes.toList ++ ascii "\n"]

/-- The registers in rows of four, then the program counter, the flag and the remainder. -/
def Machine.registerTable (m : Machine) : List Bytes :=
  (m.numbered.flatMap fun (k, v) =>
    [ascii "$" ++ padRight 2 (decimalNat k) ++ ascii " " ++ padLeft 11 (decimal v.toInt),
      if k % 4 = 3 then ascii "\n" else ascii "  "])
    ++ [ascii "pc " ++ decimal m.pc ++ ascii "  equal " ++ boolWord m.flag ++ ascii "  remainder "
      ++ decimalNat m.remainder.toNat ++ ascii "\n"]

end Quartet
