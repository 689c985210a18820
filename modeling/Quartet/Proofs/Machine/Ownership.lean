/-
  Quartet.Proofs.Machine.Ownership
  ────────────────────────────────
  **AN INSTRUCTION TOUCHES ONLY WHAT IT OWNS.**

  An instruction owns a register that one of its operands names, or the flag, the heap or the program
  counter; a division owns the remainder as well.  Operands are bytes of the code, so they may name
  the same register twice or no register at all:

    • `Machine.AboutTo`, `Machine.OutOfCode` — what the bytes at the program counter are,
    • `Opcode.target?`, `Opcode.compares`, `Opcode.jumps` — what an operation owns,
    • `Machine.touches_effect`, `Machine.touches_step` — an instruction that is carried out touches
      nothing else,
    • `Machine.grows_step`, `Machine.grows_callAll` — a step, and any number of steps, leave the
      program alone and add zero bytes to the heap,
    • `execution_owned` — both for every machine.
-/
import Quartet.Proofs.Assembly.Simulation
import Quartet.Proofs.Machine.Restart

namespace Quartet

/-! ## §1. The bytes at the program counter. -/

namespace Machine

/-- The program counter is at an instruction: the byte of its operation and three operand bytes. -/
def HasSlot (m : Machine) (op : Opcode) (a b c : UInt8) : Prop :=
  ∃ i : Nat, m.pc = i ∧ m.code[i]? = some op.toByte ∧ m.code[i + 1]? = some a ∧
    m.code[i + 2]? = some b ∧ m.code[i + 3]? = some c

/-- The machine is about to carry out an instruction: it is not at fault, and the program counter is
at the instruction. -/
structure AboutTo (m : Machine) (op : Opcode) (a b c : UInt8) : Prop where
  /-- The machine is not at fault. -/
  fault : m.fault = none
  /-- The bytes of the instruction are at the program counter. -/
  slot : m.HasSlot op a b c

/-- The program counter is where there is no room for an instruction. -/
def OutOfCode (m : Machine) : Prop := m.pc < 0 ∨ (m.code.size : Int) < m.pc + 4

/-- An instruction is fetched exactly where its bytes are. -/
theorem fetch_eq_slot_iff {m : Machine} {op : Opcode} {a b c : UInt8} :
    m.fetch = .slot op a b c ↔ m.HasSlot op a b c := by
  constructor
  · intro h
    obtain ⟨i, byte, hpc, hbyte, hop, ha, hb, hc⟩ := slot_of_fetch h
    rw [← Opcode.toByte_of_ofByte? hop] at hbyte
    exact ⟨i, hpc, hbyte, ha, hb, hc⟩
  · rintro ⟨i, hpc, hbyte, ha, hb, hc⟩
    exact fetch_eq_slot hpc (Opcode.ofByte?_toByte op) hbyte ha hb hc

/-- Nothing is fetched only where there is no room for an instruction. -/
theorem outOfCode_of_fetch {m : Machine} (h : m.fetch = .exhausted) : m.OutOfCode := by
  unfold fetch at h
  split at h
  · next i hpc =>
    -- before the code
    left
    omega
  · next i hpc =>
    right
    have hpc' : m.pc = (i : Int) := hpc
    split at h
    · next hnone =>
      have hsize := Array.getElem?_eq_none_iff.mp hnone
      omega
    · split at h
      · exact absurd h nofun
      · split at h
        · exact absurd h nofun
        · next hmissing =>
          -- if the last operand byte were there, the other two would be as well
          by_contra hroom
          have hlast : i + 3 < m.code.size := by omega
          exact hmissing m.code[i + 1] m.code[i + 2] m.code[i + 3]
            (Array.getElem?_eq_getElem (by omega)) (Array.getElem?_eq_getElem (by omega))
            (Array.getElem?_eq_getElem hlast)

end Machine

/-! ## §2. What an operation owns. -/

namespace Opcode

/-- The operand that names the register an operation puts its result into. -/
def target? (op : Opcode) (a _b c : UInt8) : Option UInt8 :=
  match op with
  | .load | .inc | .dec => some a
  | .add | .sub | .mul | .div => some c
  | _ => none

/-- Whether an operation is a comparison. -/
def compares : Opcode → Bool
  | .eq | .neq | .gt | .lt | .gtq | .ltq => true
  | _ => false

/-- Whether an operation leads elsewhere than to the next instruction, given the flag. -/
def jumps (op : Opcode) (flag : Bool) : Bool :=
  match op with
  | .jmp | .jmpf | .jmpb => true
  | .jmpe => flag
  | _ => false

end Opcode

namespace Machine

/-- What an instruction does to a machine if it touches only what it owns.  The instruction that
follows it is at `next`. -/
structure Touches (m : Machine) (next : Int) (op : Opcode) (a b c : UInt8) (t : Machine) : Prop where
  /-- A register changes only if the operation puts its result there. -/
  regs : ∀ r, t.get r ≠ m.get r → (op.target? a b c).map UInt8.toNat = some r.val
  /-- The flag changes only in a comparison. -/
  flag : t.flag ≠ m.flag → op.compares
  /-- The remainder changes only in a division. -/
  remainder : t.remainder ≠ m.remainder → op = .div
  /-- The heap changes only in an allocation, -/
  heap : t.heap ≠ m.heap → op = .aloc
  /-- which adds exactly as many zero bytes as its register says. -/
  allocated : op = .aloc → ∃ r : Fin registerCount, a.toNat = r.val ∧ 0 ≤ m.value r ∧
    t.heap.bytes = m.heap.bytes ++ Array.replicate (m.value r).toNat 0
  /-- The program counter goes on to the next instruction, unless the operation jumps; a jump leads
  into the code. -/
  pc : if op.jumps m.flag then 0 ≤ t.pc ∧ t.pc < m.code.size else t.pc = next

/-! ## §3. Instructions. -/

theorem toNat_of_register {byte : UInt8} {r : Fin registerCount} (h : register byte = .ok r) :
    byte.toNat = r.val := by
  unfold register at h
  by_cases hlt : byte.toNat < registerCount
  · rw [dif_pos hlt] at h
    rw [← Except.ok.inj h]
  · rw [dif_neg hlt] at h
    exact absurd h nofun

theorem get_set_of_ne (m : Machine) {d r : Fin registerCount} (h : r ≠ d) (v : Int32) :
    (m.set d v).get r = m.get r := by
  have hval : d.val ≠ r.val := fun heq => h (Fin.ext heq.symm)
  exact Vector.getElem_set_ne d.isLt r.isLt hval

section Instructions

variable {m next : Machine} {op : Opcode} {a b c : UInt8}

/-- An operation that neither allocates nor jumps may put its result into a register. -/
theorem touches_set {byte : UInt8} {d : Fin registerCount} (hd : register byte = .ok d)
    (htarget : op.target? a b c = some byte) (haloc : op ≠ .aloc)
    (hjumps : op.jumps m.flag = false) (v : Int32) : m.Touches m.pc op a b c (m.set d v) := by
  refine ⟨?_, fun h => absurd rfl h, fun h => absurd rfl h, fun h => absurd rfl h,
    fun h => absurd h haloc, ?_⟩
  · intro r hr
    -- the register that has changed is the one that was set
    have hrd : r = d := by
      by_contra hne
      exact hr (m.get_set_of_ne hne v)
    rw [htarget, hrd, ← toNat_of_register hd]
    rfl
  · rw [hjumps]
    exact rfl

theorem touches_combine {f : Int32 → Int32 → Int32} (htarget : op.target? a b c = some c)
    (haloc : op ≠ .aloc) (hjumps : op.jumps m.flag = false) (h : m.combine f a b c = .ok next) :
    m.Touches m.pc op a b c next := by
  rw [combine_eq] at h
  obtain ⟨x, -, h⟩ := bind_eq_ok h
  obtain ⟨y, -, h⟩ := bind_eq_ok h
  obtain ⟨d, hd, h⟩ := bind_eq_ok h
  rw [← Except.ok.inj h]
  exact touches_set hd htarget haloc hjumps _

theorem touches_adjust {f : Int32 → Int32} (htarget : op.target? a b c = some a)
    (haloc : op ≠ .aloc) (hjumps : op.jumps m.flag = false) (h : m.adjust f a = .ok next) :
    m.Touches m.pc op a b c next := by
  rw [adjust_eq] at h
  obtain ⟨r, hr, h⟩ := bind_eq_ok h
  rw [← Except.ok.inj h]
  exact touches_set hr htarget haloc hjumps _

theorem touches_divide (h : m.divide a b c = .ok next) : m.Touches m.pc .div a b c next := by
  rw [divide_eq] at h
  obtain ⟨x, -, h⟩ := bind_eq_ok h
  obtain ⟨y, -, h⟩ := bind_eq_ok h
  obtain ⟨d, hd, h⟩ := bind_eq_ok h
  by_cases hzero : m.get y = 0
  · rw [if_pos hzero] at h
    exact absurd h nofun
  · rw [if_neg hzero] at h
    rw [← Except.ok.inj h]
    -- the quotient goes to a register as any result does, and the remainder beside it
    have hset : m.Touches m.pc .div a b c (m.set d (m.get x / m.get y)) :=
      touches_set hd rfl (by decide) rfl _
    exact ⟨hset.regs, hset.flag, fun _ => rfl, hset.heap, hset.allocated, hset.pc⟩

/-- A comparison may change the flag. -/
theorem touches_compare {f : Int32 → Int32 → Bool} (hcompares : op.compares)
    (haloc : op ≠ .aloc) (hjumps : op.jumps m.flag = false) (h : m.compare f a b = .ok next) :
    m.Touches m.pc op a b c next := by
  rw [compare_eq] at h
  obtain ⟨x, -, h⟩ := bind_eq_ok h
  obtain ⟨y, -, h⟩ := bind_eq_ok h
  rw [← Except.ok.inj h]
  refine ⟨fun r h => absurd rfl h, fun _ => hcompares, fun h => absurd rfl h,
    fun h => absurd rfl h, fun h => absurd h haloc, ?_⟩
  rw [hjumps]
  exact rfl

/-- A jump may change the program counter, to an address of the code. -/
theorem touches_jump (haloc : op ≠ .aloc) (hjumps : op.jumps m.flag = true) {target : Int}
    (h : m.jump target = .ok next) : m.Touches m.pc op a b c next := by
  rw [jump_eq] at h
  by_cases hin : 0 ≤ target ∧ target < m.code.size
  · rw [if_pos hin] at h
    rw [← Except.ok.inj h]
    refine ⟨fun r h => absurd rfl h, fun h => absurd rfl h, fun h => absurd rfl h,
      fun h => absurd rfl h, fun h => absurd h haloc, ?_⟩
    rw [hjumps]
    exact hin
  · rw [if_neg hin] at h
    exact absurd h nofun

theorem touches_jumpBy {f : Int → Int → Int} (haloc : op ≠ .aloc) (hjumps : op.jumps m.flag = true)
    (h : m.jumpBy f a = .ok next) : m.Touches m.pc op a b c next := by
  rw [jumpBy_eq] at h
  obtain ⟨r, -, h⟩ := bind_eq_ok h
  exact touches_jump haloc hjumps h

/-- An allocation may change the heap. -/
theorem touches_allocate (h : m.allocate a = .ok next) : m.Touches m.pc .aloc a b c next := by
  rw [allocate_eq] at h
  obtain ⟨r, hr, h⟩ := bind_eq_ok h
  by_cases hneg : m.get r < 0
  · rw [if_pos hneg] at h
    exact absurd h nofun
  · rw [if_neg hneg] at h
    rw [← Except.ok.inj h]
    have hsize : 0 ≤ m.value r := by
      have hlt : ¬m.value r < 0 := fun hlt => hneg (Int32.lt_iff_toInt_lt.mpr hlt)
      omega
    exact ⟨fun r h => absurd rfl h, fun h => absurd rfl h, fun h => absurd rfl h, fun _ => rfl,
      fun _ => ⟨r, toNat_of_register hr, hsize, rfl⟩, rfl⟩

/-- An operation that changes nothing touches nothing. -/
theorem touches_self (haloc : op ≠ .aloc) (hjumps : op.jumps m.flag = false) :
    m.Touches m.pc op a b c m := by
  refine ⟨fun r h => absurd rfl h, fun h => absurd rfl h, fun h => absurd rfl h,
    fun h => absurd rfl h, fun h => absurd h haloc, ?_⟩
  rw [hjumps]
  exact rfl

/-- **An instruction that is carried out touches only what it owns.** -/
theorem touches_effect (h : m.effect op a b c = .ok next) : m.Touches m.pc op a b c next := by
  cases op with
  | hlt =>
      rw [← Except.ok.inj h]
      exact touches_self (by decide) rfl
  | add | sub | mul => exact touches_combine rfl (by decide) rfl h
  | div => exact touches_divide h
  | eq | neq => exact touches_compare rfl (by decide) rfl h
  | gt => exact touches_compare (f := fun x y => decide (y < x)) rfl (by decide) rfl h
  | lt => exact touches_compare (f := fun x y => decide (x < y)) rfl (by decide) rfl h
  | gtq => exact touches_compare (f := fun x y => decide (y ≤ x)) rfl (by decide) rfl h
  | ltq => exact touches_compare (f := fun x y => decide (x ≤ y)) rfl (by decide) rfl h
  | aloc => exact touches_allocate h
  | inc => exact touches_adjust (f := (· + 1)) rfl (by decide) rfl h
  | dec => exact touches_adjust (f := (· - 1)) rfl (by decide) rfl h
  | load =>
      rw [effect_load] at h
      obtain ⟨r, hr, h⟩ := bind_eq_ok h
      rw [← Except.ok.inj h]
      exact touches_set hr rfl (by decide) rfl _
  | jmp => exact touches_jumpBy (f := fun _ value => value) (by decide) rfl h
  | jmpf => exact touches_jumpBy (f := (· + ·)) (by decide) rfl h
  | jmpb => exact touches_jumpBy (f := (· - ·)) (by decide) rfl h
  | jmpe =>
      rw [effect_jmpe] at h
      obtain ⟨r, -, h⟩ := bind_eq_ok h
      -- it is a jump exactly if the flag is set
      by_cases hflag : m.flag = true
      · rw [if_pos hflag] at h
        exact touches_jump (by decide) hflag h
      · rw [if_neg hflag] at h
        rw [← Except.ok.inj h]
        exact touches_self (by decide) (Bool.eq_false_iff.mpr hflag)

end Instructions

/-! ## §4. One step. -/

/-- **A step that does not fault** has run out of code and changes nothing, or it carries out the
instruction at the program counter and touches only what that owns. -/
theorem touches_step {m : Machine} (h : m.step.1 ≠ .faulted) :
    m.OutOfCode ∧ m.step = (.halted, m) ∨
      ∃ op a b c, m.AboutTo op a b c ∧ m.Touches (m.pc + 4) op a b c m.step.2 := by
  have hstepped := m.stepped_step
  generalize m.step = r at h hstepped ⊢
  cases hstepped with
  | stuck hfault => exact absurd rfl h
  | exhausted hfault hfetch => exact Or.inl ⟨outOfCode_of_fetch hfetch, rfl⟩
  | illegal hfault hfetch => exact absurd rfl h
  | failed hfault hfetch heffect => exact absurd rfl h
  | @done op a b c next hfault hfetch heffect =>
      have htouches := touches_effect heffect
      -- the count, which the step adds to, is not among the things that are owned
      exact Or.inr ⟨op, a, b, c, ⟨hfault, fetch_eq_slot_iff.mp hfetch⟩, htouches.regs,
        htouches.flag, htouches.remainder, htouches.heap, htouches.allocated, htouches.pc⟩

/-! ## §5. Any number of steps. -/

/-- The program is the same, and zero bytes were added to the heap at most. -/
structure Grows (m t : Machine) : Prop where
  /-- The code is the same. -/
  code : t.code = m.code
  /-- The read-only data are the same. -/
  data : t.data = m.data
  /-- The heap before is followed by zero bytes. -/
  heap : ∃ n, t.heap.bytes = m.heap.bytes ++ Array.replicate n 0

theorem grows_refl (m : Machine) : m.Grows m := by
  refine ⟨rfl, rfl, 0, ?_⟩
  simp

theorem Grows.trans {m t u : Machine} (h : m.Grows t) (h' : t.Grows u) : m.Grows u := by
  obtain ⟨n, hn⟩ := h.heap
  obtain ⟨k, hk⟩ := h'.heap
  refine ⟨h'.code.trans h.code, h'.data.trans h.data, n + k, ?_⟩
  rw [hk, hn, Array.append_assoc, Array.replicate_append_replicate]

/-- An instruction that touches only what it owns extends the heap at most. -/
theorem Touches.exists_heap {m t : Machine} {next : Int} {op : Opcode} {a b c : UInt8}
    (h : m.Touches next op a b c t) :
    ∃ n, t.heap.bytes = m.heap.bytes ++ Array.replicate n 0 := by
  by_cases hop : op = .aloc
  · obtain ⟨r, -, -, hbytes⟩ := h.allocated hop
    exact ⟨_, hbytes⟩
  · have hheap : t.heap = m.heap := by
      by_contra hne
      exact hop (h.heap hne)
    rw [hheap]
    exact m.grows_refl.heap

/-- **A step lets a machine grow at most.** -/
theorem grows_step (m : Machine) : m.Grows m.step.2 := by
  refine ⟨m.code_step, m.indifferent_step.data_eq, ?_⟩
  by_cases hfaulted : m.step.1 = .faulted
  · -- the fault is noted and nothing else happens
    have hheap : m.step.2.heap = m.heap := by rw [(step_of_faulted hfaulted).1]
    rw [hheap]
    exact m.grows_refl.heap
  · rcases touches_step hfaulted with ⟨-, hsame⟩ | ⟨op, a, b, c, -, htouches⟩
    · rw [hsame]
      exact m.grows_refl.heap
    · exact htouches.exists_heap

/-- **So does any number of steps.** -/
theorem grows_callAll (n : Nat) : ∀ m : Machine, m.Grows (m.callAll (List.replicate n .step)).2 := by
  induction n with
  | zero => intro m; exact m.grows_refl
  | succ n ih =>
      intro m
      show m.Grows (m.step.2.callAll (List.replicate n .step)).2
      exact m.grows_step.trans (ih m.step.2)

end Machine

/-- **Execution touches only what each instruction owns.**  However many steps are taken, the code and
the read-only data stay the same and the heap is only extended, by zero bytes.  A step that does not
fault either has run out of code and changes nothing at all, or it carries out the instruction at
the program counter.  Then no register changes but the one the operation puts its result into, the
flag changes only in a comparison, the remainder only in a division, and the heap only in an
allocation, by exactly the number in its register.  The next instruction follows, unless a jump
leads to another address of the code. -/
theorem execution_owned (m : Machine) :
    (∀ n, m.Grows (m.callAll (List.replicate n .step)).2) ∧
    (m.step.1 ≠ .faulted →
      m.OutOfCode ∧ m.step = (.halted, m) ∨
        ∃ op a b c, m.AboutTo op a b c ∧ m.Touches (m.pc + 4) op a b c m.step.2) :=
  ⟨fun n => Machine.grows_callAll n m, Machine.touches_step⟩

/-- A machine at an allocation of three bytes, with one byte in its heap; a quotient stands before
the allocation, and the code ends behind it. -/
def ownershipSample : Machine :=
  { Machine.fresh.loadImage ⟨[7], [5, 9, 9, 9, 16, 9, 0, 0]⟩ with
    pc := 4, regs := (Vector.replicate registerCount 0).set 9 3, flag := true,
    heap := ⟨#[5], some 1⟩ }

theorem execution_owned_sample :
    ownershipSample.step.1 ≠ .faulted ∧
    (∃ op a b c, ownershipSample.AboutTo op a b c ∧
      ownershipSample.Touches 8 op a b c ownershipSample.step.2) ∧
    ownershipSample.Grows (ownershipSample.callAll [.step, .step, .step]).2 ∧
    (ownershipSample.callAll [.step, .step, .step]).2.heap.bytes = #[5, 0, 0, 0] := by
  have hsignal : ownershipSample.step.1 = .proceed := by decide
  have hok : ownershipSample.step.1 ≠ .faulted := by
    rw [hsignal]
    decide
  obtain ⟨hgrows, hstep⟩ := execution_owned ownershipSample
  refine ⟨hok, ?_, hgrows 3, by decide⟩
  rcases hstep hok with ⟨-, hhalted⟩ | hslot
  · -- the step has not run out of code, for it proceeds
    rw [hhalted] at hsignal
    exact absurd hsignal (by decide)
  · exact hslot

end Quartet
