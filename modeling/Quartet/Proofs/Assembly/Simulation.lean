/-
  Quartet.Proofs.Assembly.Simulation
  ──────────────────────────────────
  **ASSEMBLED CODE SIMULATES ITS SOURCE.**

  The meaning of an instruction is given twice.  `Machine.step` reads it out of four bytes of code;
  `Record.effect?` reads it off the source operands, with integers for all values.  The main
  statement, `step_eq_carryOut_effect?`, says that the two are one: at the address of the `k`-th
  instruction the machine does what the `k`-th instruction of the program says.

    • `Effect`, `Machine.carryOut` — what an instruction can do, and its faults,
    • `fetch_eq_slot` — the `k`-th slot of the code is fetched at address `4 * k`,
    • `simulated_of_shape` — a fetched slot is carried out as the operands of its shape say.
-/
import Mathlib.Data.List.Basic
import Quartet.Proofs.Assembly.Addresses
import Quartet.Proofs.Machine.Actions

namespace Quartet

/-! ## §1. Effects over the integers. -/

/-- What an instruction does, with integers for all values. -/
inductive Effect where
  /-- Stop. -/
  | halt
  /-- Go on with the next instruction. -/
  | skip
  /-- Put a value into a register. -/
  | assign (r : Fin registerCount) (value : Int)
  /-- Put a quotient into a register and keep the remainder. -/
  | divide (r : Fin registerCount) (dividend divisor : Int)
  /-- Set or clear the flag. -/
  | compare (flag : Bool)
  /-- Go on at another address. -/
  | goTo (target : Int)
  /-- Extend the heap by zero bytes. -/
  | allocate (size : Int)
deriving DecidableEq, Repr

namespace Machine

/-- A register as an integer. -/
def value (m : Machine) (r : Fin registerCount) : Int := (m.get r).toInt

/-- The machine after an instruction has been carried out, if the next one is at `next`. -/
def goneOn (m : Machine) (next : Int) : Machine := { m with pc := next, count := m.count + 1 }

/-- The machine after an instruction has failed: nothing changes but the fault. -/
def failed (m : Machine) (cause : Cause) : Signal × Machine :=
  (.faulted, { m with fault := some ⟨m.pc, cause⟩ })

/-- Carries out an effect, the following instruction being at `next`.  Values are reduced to 32
bits; quotients are cut off toward zero. -/
def carryOut (m : Machine) (next : Int) : Effect → Signal × Machine
  | .halt => (.halted, m.goneOn next)
  | .skip => (.proceed, m.goneOn next)
  | .assign r v => (.proceed, (m.goneOn next).set r (Int32.ofInt v))
  | .divide r x y =>
    if y = 0 then m.failed .divisionByZero
    else
      (.proceed,
        { (m.goneOn next).set r (Int32.ofInt (x.tdiv y)) with
          remainder := UInt32.ofInt (x.tmod y) })
  | .compare b => (.proceed, { m.goneOn next with flag := b })
  | .goTo target =>
    if 0 ≤ target ∧ target < m.code.size then (.proceed, m.goneOn target)
    else m.failed (.jumpOutOfRange target m.code.size)
  | .allocate size =>
    if size < 0 then m.failed (.negativeAllocation size)
    else
      (.proceed, { m.goneOn next with heap := m.heap.append (Array.replicate size.toNat 0) })

end Machine

/-! ## §2. The effect of a source instruction. -/

namespace Token

/-- The register that an operand names. -/
def register? : Token → Option (Fin registerCount)
  | .register index => if h : index.toNat < registerCount then some ⟨index.toNat, h⟩ else none
  | _ => none

/-- The number that an operand stands for: its remainder modulo 65536. -/
def number? : Token → Option Int
  | .immediate n => some (n.toInt % 65536)
  | _ => none

/-- An operand of the kind that a shape asks for. -/
inductive HasKind : Token → ArgKind → Prop
  /-- A register. -/
  | register (index : UInt8) : HasKind (.register index) .register
  /-- A number. -/
  | immediate (n : Int32) : HasKind (.immediate n) .immediate

end Token

/-- The effect of an operation with its source operands on a machine, the following instruction
being at `next`.  There is none if the operands are not those of the operation. -/
def Opcode.effect? (m : Machine) (next : Int) : Opcode → List Token → Option Effect
  | .hlt, [] => some .halt
  | .load, [r, n] => do return .assign (← r.register?) (← n.number?)
  | .add, [x, y, d] => do
    return .assign (← d.register?) (m.value (← x.register?) + m.value (← y.register?))
  | .sub, [x, y, d] => do
    return .assign (← d.register?) (m.value (← x.register?) - m.value (← y.register?))
  | .mul, [x, y, d] => do
    return .assign (← d.register?) (m.value (← x.register?) * m.value (← y.register?))
  | .div, [x, y, d] => do
    return .divide (← d.register?) (m.value (← x.register?)) (m.value (← y.register?))
  | .jmp, [r] => do return .goTo (m.value (← r.register?))
  | .jmpf, [r] => do return .goTo (next + m.value (← r.register?))
  | .jmpb, [r] => do return .goTo (next - m.value (← r.register?))
  | .eq, [x, y] => do return .compare (m.value (← x.register?) = m.value (← y.register?))
  | .neq, [x, y] => do return .compare (m.value (← x.register?) ≠ m.value (← y.register?))
  | .gt, [x, y] => do return .compare (m.value (← x.register?) > m.value (← y.register?))
  | .lt, [x, y] => do return .compare (m.value (← x.register?) < m.value (← y.register?))
  | .gtq, [x, y] => do return .compare (m.value (← x.register?) ≥ m.value (← y.register?))
  | .ltq, [x, y] => do return .compare (m.value (← x.register?) ≤ m.value (← y.register?))
  | .jmpe, [r] => do
    let target := m.value (← r.register?)
    return if m.flag then .goTo target else .skip
  | .aloc, [r] => do return .allocate (m.value (← r.register?))
  | .inc, [r] => do
    let r ← r.register?
    return .assign r (m.value r + 1)
  | .dec, [r] => do
    let r ← r.register?
    return .assign r (m.value r - 1)
  | _, _ => none

namespace Record

/-- The operation of an instruction, if its byte is mapped. -/
def opcode? (r : Record) : Option Opcode :=
  match r.head with
  | .op byte => Opcode.ofByte? byte
  | _ => none

/-- The effect of a source instruction on a machine. -/
def effect? (m : Machine) (next : Int) (r : Record) : Option Effect := do
  (← r.opcode?).effect? m next r.operands

/-- An instruction whose operation is mapped and whose operands are of its shape. -/
def Fits (r : Record) : Prop :=
  ∃ op, r.opcode? = some op ∧ List.Forall₂ Token.HasKind r.operands op.shape

end Record

/-! ## §3. Fetching the `k`-th slot. -/

/-- In a row of slots, byte `j` of slot `k` stands at `4 * k + j`. -/
theorem getElem?_flatMap_slots {α : Type} (f : α → Bytes) (xs : List α)
    (hlength : ∀ x ∈ xs, (f x).length = 4) (k j : Nat) (hk : k < xs.length) (hj : j < 4) :
    (xs.flatMap f)[4 * k + j]? = (f xs[k])[j]? := by
  induction xs generalizing k with
  | nil => exact absurd hk (Nat.not_lt_zero k)
  | cons x xs ih =>
      have hx : (f x).length = 4 := hlength x List.mem_cons_self
      rw [List.flatMap_cons]
      cases k with
      | zero =>
          rw [List.getElem?_append_left (by omega)]
          simp
      | succ k =>
          rw [List.getElem?_append_right (by omega), hx,
              show 4 * (k + 1) + j - 4 = 4 * k + j by omega]
          exact ih (fun y hy => hlength y (List.mem_cons_of_mem _ hy)) k (by simpa using hk)

namespace Machine

/-- A slot of the code whose first byte is mapped is fetched at its address. -/
theorem fetch_eq_slot {m : Machine} {i : Nat} {op : Opcode} {byte a b c : UInt8}
    (hpc : m.pc = i) (hop : Opcode.ofByte? byte = some op) (h0 : m.code[i]? = some byte)
    (h1 : m.code[i + 1]? = some a) (h2 : m.code[i + 2]? = some b) (h3 : m.code[i + 3]? = some c) :
    m.fetch = .slot op a b c := by
  unfold fetch
  rw [hpc]
  simp only [h0, hop, h1, h2, h3]

/-- How a step ends, given what the effect of its instruction gave. -/
def conclude (m : Machine) (op : Opcode) : Except Cause Machine → Signal × Machine
  | .error cause => m.failed cause
  | .ok next => (if op = .hlt then .halted else .proceed, { next with count := next.count + 1 })

/-- A step at a slot carries out its instruction with the program counter at the next one. -/
theorem step_eq_conclude {m : Machine} {op : Opcode} {a b c : UInt8} (hfault : m.fault = none)
    (hfetch : m.fetch = .slot op a b c) :
    m.step = m.conclude op ({ m with pc := m.pc + 4 }.effect op a b c) := by
  rw [step_eq_effect]
  simp only [hfault, Option.isSome_none, Bool.false_eq_true, if_false, hfetch]
  show (match ({ m with pc := m.pc + 4, fault := none } : Machine).effect op a b c with
    | .error cause => _
    | .ok next => _) = _
  cases ({ m with pc := m.pc + 4, fault := none } : Machine).effect op a b c <;> rfl

end Machine

/-! ## §4. One instruction of each kind. -/

/-- The machine and the source mean the same register. -/
theorem register_eq_ok {index : UInt8} {r : Fin registerCount}
    (h : (Token.register index).register? = some r) : Machine.register index = .ok r := by
  unfold Machine.register
  simp only [Token.register?] at h
  split at h
  · next hlt =>
    rw [dif_pos hlt, Option.some.inj h]
  · exact absurd h (by simp)

/-- Sixteen bits that were taken apart are put together as a number from 0 to 65535. -/
theorem word_bytes (n : Int) :
    Machine.word (UInt8.ofNat (n / 256 % 256).toNat) (UInt8.ofNat (n % 256).toNat) =
      Int32.ofInt (n % 65536) := by
  have hhigh : (UInt8.ofNat (n / 256 % 256).toNat).toNat = (n / 256 % 256).toNat :=
    UInt8.toNat_ofNat_of_lt' (show (n / 256 % 256).toNat < 256 by omega)
  have hlow : (UInt8.ofNat (n % 256).toNat).toNat = (n % 256).toNat :=
    UInt8.toNat_ofNat_of_lt' (show (n % 256).toNat < 256 by omega)
  have hsum : n % 65536 = (((n / 256 % 256).toNat * 256 + (n % 256).toNat : Nat) : Int) := by omega
  unfold Machine.word
  rw [hhigh, hlow, hsum, Int32.ofInt_eq_ofNat]

/-- The bits of a signed number are its remainder modulo `2 ^ 32`. -/
theorem ofInt_toInt_eq_toUInt32 (x : Int32) : UInt32.ofInt x.toInt = x.toUInt32 := by
  apply UInt32.toNat_inj.mp
  have hbits : x.toUInt32.toNat = (BitVec.ofInt 32 x.toInt).toNat := by
    rw [BitVec.ofInt_int32ToInt]
    rfl
  rw [hbits, BitVec.toNat_ofInt]
  exact UInt32.toNat_ofNat_of_lt' (show (x.toInt % 2 ^ 32).toNat < 2 ^ 32 by omega)

namespace Machine

/-- An effect that does not fail lets the machine go on, unless it stops it. -/
theorem conclude_ok (m next : Machine) {op : Opcode} (hop : op ≠ .hlt) :
    m.conclude op (.ok next) = (.proceed, { next with count := next.count + 1 }) := by
  show (if op = .hlt then Signal.halted else Signal.proceed, _) = _
  rw [if_neg hop]

/-- Two registers combined into a third, where `g` is the operation on integers. -/
theorem conclude_combine (m : Machine) {op : Opcode} (hop : op ≠ .hlt) {f : Int32 → Int32 → Int32}
    {g : Int → Int → Int} (hfg : ∀ x y : Int32, Int32.ofInt (g x.toInt y.toInt) = f x y)
    {a b c : UInt8} {x y d : Fin registerCount} (ha : register a = .ok x) (hb : register b = .ok y)
    (hc : register c = .ok d) :
    m.conclude op ({ m with pc := m.pc + 4 }.combine f a b c) =
      m.carryOut (m.pc + 4) (.assign d (g (m.value x) (m.value y))) := by
  have hvalue : Int32.ofInt (g (m.value x) (m.value y)) = f (m.get x) (m.get y) := hfg _ _
  rw [combine_eq, ha, hb, hc]
  show m.conclude op (.ok _) = _
  rw [conclude_ok m _ hop]
  simp only [carryOut, hvalue]
  rfl

/-- Two registers compared, where `g` is the comparison of integers. -/
theorem conclude_compare (m : Machine) {op : Opcode} (hop : op ≠ .hlt) {f : Int32 → Int32 → Bool}
    {g : Int → Int → Bool} (hfg : ∀ x y : Int32, g x.toInt y.toInt = f x y)
    {a b : UInt8} {x y : Fin registerCount} (ha : register a = .ok x) (hb : register b = .ok y) :
    m.conclude op ({ m with pc := m.pc + 4 }.compare f a b) =
      m.carryOut (m.pc + 4) (.compare (g (m.value x) (m.value y))) := by
  have hflag : g (m.value x) (m.value y) = f (m.get x) (m.get y) := hfg _ _
  rw [compare_eq, ha, hb]
  show m.conclude op (.ok _) = _
  rw [conclude_ok m _ hop]
  simp only [carryOut, hflag]
  rfl

/-- A jump to an address of the code goes there; any other is out of range. -/
theorem conclude_jump (m : Machine) {op : Opcode} (hop : op ≠ .hlt) (target : Int) :
    m.conclude op ({ m with pc := m.pc + 4 }.jump target) =
      m.carryOut (m.pc + 4) (.goTo target) := by
  rw [jump_eq]
  simp only [carryOut]
  by_cases hin : 0 ≤ target ∧ target < m.code.size
  · rw [if_pos hin, if_pos hin, conclude_ok m _ hop]
    rfl
  · rw [if_neg hin, if_neg hin]
    rfl

theorem conclude_divide (m : Machine) {a b c : UInt8} {x y d : Fin registerCount}
    (ha : register a = .ok x) (hb : register b = .ok y) (hc : register c = .ok d) :
    m.conclude .div ({ m with pc := m.pc + 4 }.divide a b c) =
      m.carryOut (m.pc + 4) (.divide d (m.value x) (m.value y)) := by
  have hzero : m.get y = 0 ↔ m.value y = 0 := by
    show m.get y = 0 ↔ (m.get y).toInt = (0 : Int32).toInt
    exact Int32.toInt_inj.symm
  have hquotient : m.get x / m.get y = Int32.ofInt ((m.value x).tdiv (m.value y)) := by
    symm
    rw [Int32.ofInt_eq_iff_bmod_eq_toInt, Int32.toInt_div]
    rfl
  have hremainder : (m.get x % m.get y).toUInt32 = UInt32.ofInt ((m.value x).tmod (m.value y)) := by
    rw [← ofInt_toInt_eq_toUInt32, Int32.toInt_mod]
    rfl
  simp only [carryOut]
  rw [divide_eq, ha, hb, hc]
  show m.conclude .div (if m.get y = 0 then _ else _) = _
  by_cases hy : m.get y = 0
  · rw [if_pos hy, if_pos (hzero.mp hy)]
    rfl
  · rw [if_neg hy, if_neg (fun h => hy (hzero.mpr h)), ← hquotient, ← hremainder]
    exact conclude_ok m _ (by decide)

theorem conclude_allocate (m : Machine) {a : UInt8} {r : Fin registerCount}
    (ha : register a = .ok r) :
    m.conclude .aloc ({ m with pc := m.pc + 4 }.allocate a) =
      m.carryOut (m.pc + 4) (.allocate (m.value r)) := by
  have hneg : m.get r < 0 ↔ m.value r < 0 := Int32.lt_iff_toInt_lt
  simp only [carryOut]
  rw [allocate_eq, ha]
  show m.conclude .aloc (if m.get r < 0 then _ else _) = _
  by_cases hr : m.get r < 0
  · rw [if_pos hr, if_pos (hneg.mp hr)]
    rfl
  · rw [if_neg hr, if_neg (fun h => hr (hneg.mpr h))]
    exact conclude_ok m _ (by decide)

end Machine

/-! ## §5. Operands of each shape, in the source and in the slot. -/

/-- The three operand bytes of a slot. -/
def Program.argumentBytes (p : Program) (ts : List Token) : Bytes :=
  ts.flatMap p.operandImage ++ List.replicate (3 - (ts.flatMap p.operandImage).length) 0

section Operands

variable {p : Program} {ts : List Token} {a b c : UInt8}
  (hregs : ∀ index, .register index ∈ ts → index.toNat < registerCount)
  (hbytes : p.argumentBytes ts = [a, b, c])
include hregs hbytes

theorem operands_of_register (h : List.Forall₂ Token.HasKind ts [.register]) :
    ∃ x, ts = [.register a] ∧ (Token.register a).register? = some x := by
  rcases h with _ | ⟨⟨i⟩, ⟨⟩⟩
  have hi : i.toNat < registerCount := hregs i (by simp)
  have heq : [i, 0, 0] = [a, b, c] := hbytes
  simp only [List.cons.injEq] at heq
  obtain ⟨rfl, -⟩ := heq
  exact ⟨⟨_, hi⟩, rfl, dif_pos hi⟩

theorem operands_of_two_registers (h : List.Forall₂ Token.HasKind ts [.register, .register]) :
    ∃ x y, ts = [.register a, .register b] ∧ (Token.register a).register? = some x ∧
      (Token.register b).register? = some y := by
  rcases h with _ | ⟨⟨i⟩, _ | ⟨⟨j⟩, ⟨⟩⟩⟩
  have hi : i.toNat < registerCount := hregs i (by simp)
  have hj : j.toNat < registerCount := hregs j (by simp)
  have heq : [i, j, 0] = [a, b, c] := hbytes
  simp only [List.cons.injEq] at heq
  obtain ⟨rfl, rfl, -⟩ := heq
  exact ⟨⟨_, hi⟩, ⟨_, hj⟩, rfl, dif_pos hi, dif_pos hj⟩

theorem operands_of_three_registers
    (h : List.Forall₂ Token.HasKind ts [.register, .register, .register]) :
    ∃ x y d, ts = [.register a, .register b, .register c] ∧
      (Token.register a).register? = some x ∧ (Token.register b).register? = some y ∧
      (Token.register c).register? = some d := by
  rcases h with _ | ⟨⟨i⟩, _ | ⟨⟨j⟩, _ | ⟨⟨k⟩, ⟨⟩⟩⟩⟩
  have hi : i.toNat < registerCount := hregs i (by simp)
  have hj : j.toNat < registerCount := hregs j (by simp)
  have hk : k.toNat < registerCount := hregs k (by simp)
  have heq : [i, j, k] = [a, b, c] := hbytes
  simp only [List.cons.injEq] at heq
  obtain ⟨rfl, rfl, rfl, -⟩ := heq
  exact ⟨⟨_, hi⟩, ⟨_, hj⟩, ⟨_, hk⟩, rfl, dif_pos hi, dif_pos hj, dif_pos hk⟩

theorem operands_of_register_immediate
    (h : List.Forall₂ Token.HasKind ts [.register, .immediate]) :
    ∃ x n, ts = [.register a, .immediate n] ∧ (Token.register a).register? = some x ∧
      Machine.word b c = Int32.ofInt (n.toInt % 65536) := by
  rcases h with _ | ⟨⟨i⟩, _ | ⟨_ | ⟨n⟩, ⟨⟩⟩⟩
  have hi : i.toNat < registerCount := hregs i (by simp)
  have heq : [i, UInt8.ofNat (n.toInt / 256 % 256).toNat, UInt8.ofNat (n.toInt % 256).toNat] =
      [a, b, c] := hbytes
  simp only [List.cons.injEq] at heq
  obtain ⟨rfl, rfl, rfl, -⟩ := heq
  exact ⟨⟨_, hi⟩, n, rfl, dif_pos hi, word_bytes n.toInt⟩

/-- What the machine does with a slot is an effect of the operation on its source operands. -/
def Simulated (m : Machine) (op : Opcode) (ts : List Token) (a b c : UInt8) : Prop :=
  ∃ e, op.effect? m (m.pc + 4) ts = some e ∧
    m.conclude op ({ m with pc := m.pc + 4 }.effect op a b c) = m.carryOut (m.pc + 4) e

omit hregs hbytes in
theorem simulated_of_eq {m : Machine} {op : Opcode} {e : Effect} {result : Except Cause Machine}
    (heffect : { m with pc := m.pc + 4 }.effect op a b c = result)
    (hsource : op.effect? m (m.pc + 4) ts = some e)
    (h : m.conclude op result = m.carryOut (m.pc + 4) e) : Simulated m op ts a b c :=
  ⟨e, hsource, heffect ▸ h⟩

theorem simulated_combine {m : Machine} {op : Opcode} (hop : op ≠ .hlt)
    (h : List.Forall₂ Token.HasKind ts [.register, .register, .register])
    (f : Int32 → Int32 → Int32) (g : Int → Int → Int)
    (hfg : ∀ x y : Int32, Int32.ofInt (g x.toInt y.toInt) = f x y)
    (heffect : ∀ n : Machine, n.effect op a b c = n.combine f a b c)
    (hsource : ∀ s t u, op.effect? m (m.pc + 4) [s, t, u] = do
      return .assign (← u.register?) (g (m.value (← s.register?)) (m.value (← t.register?)))) :
    Simulated m op ts a b c := by
  obtain ⟨x, y, d, rfl, hx, hy, hd⟩ := operands_of_three_registers hregs hbytes h
  refine simulated_of_eq (heffect _) ((hsource _ _ _).trans (by rw [hx, hy, hd]; rfl)) ?_
  exact Machine.conclude_combine m hop hfg (register_eq_ok hx) (register_eq_ok hy) (register_eq_ok hd)

theorem simulated_compare {m : Machine} {op : Opcode} (hop : op ≠ .hlt)
    (h : List.Forall₂ Token.HasKind ts [.register, .register])
    (f : Int32 → Int32 → Bool) (g : Int → Int → Bool)
    (hfg : ∀ x y : Int32, g x.toInt y.toInt = f x y)
    (heffect : ∀ n : Machine, n.effect op a b c = n.compare f a b)
    (hsource : ∀ s t, op.effect? m (m.pc + 4) [s, t] = do
      return .compare (g (m.value (← s.register?)) (m.value (← t.register?)))) :
    Simulated m op ts a b c := by
  obtain ⟨x, y, rfl, hx, hy⟩ := operands_of_two_registers hregs hbytes h
  refine simulated_of_eq (heffect _) ((hsource _ _).trans (by rw [hx, hy]; rfl)) ?_
  exact Machine.conclude_compare m hop hfg (register_eq_ok hx) (register_eq_ok hy)

theorem simulated_jump {m : Machine} {op : Opcode} (hop : op ≠ .hlt)
    (h : List.Forall₂ Token.HasKind ts [.register]) (f : Int → Int → Int)
    (heffect : ∀ n : Machine, n.effect op a b c = n.jumpBy f a)
    (hsource : ∀ s, op.effect? m (m.pc + 4) [s] = do
      return .goTo (f (m.pc + 4) (m.value (← s.register?)))) :
    Simulated m op ts a b c := by
  obtain ⟨x, rfl, hx⟩ := operands_of_register hregs hbytes h
  refine simulated_of_eq (heffect _) ((hsource _).trans (by rw [hx]; rfl)) ?_
  rw [Machine.jumpBy_eq, register_eq_ok hx]
  exact Machine.conclude_jump m hop _

theorem simulated_assign {m : Machine} {op : Opcode} (hop : op ≠ .hlt)
    (h : List.Forall₂ Token.HasKind ts [.register]) (f : Int32 → Int32) (g : Int → Int)
    (hfg : ∀ x : Int32, Int32.ofInt (g x.toInt) = f x)
    (heffect : ∀ n : Machine, n.effect op a b c = n.adjust f a)
    (hsource : ∀ s, op.effect? m (m.pc + 4) [s] = do
      let x ← s.register?
      return .assign x (g (m.value x))) :
    Simulated m op ts a b c := by
  obtain ⟨x, rfl, hx⟩ := operands_of_register hregs hbytes h
  refine simulated_of_eq (heffect _) ((hsource _).trans (by rw [hx]; rfl)) ?_
  have hvalue : Int32.ofInt (g (m.value x)) = f (m.get x) := hfg _
  rw [Machine.adjust_eq, register_eq_ok hx]
  show m.conclude op (.ok _) = _
  rw [Machine.conclude_ok m _ hop]
  simp only [Machine.carryOut, hvalue]
  rfl

/-- **One instruction.**  With operands of its shape, every operation is simulated by its slot. -/
theorem simulated_of_shape (m : Machine) (op : Opcode)
    (h : List.Forall₂ Token.HasKind ts op.shape) : Simulated m op ts a b c := by
  cases op with
  | hlt =>
      rcases h with ⟨⟩
      exact ⟨.halt, rfl, rfl⟩
  | load =>
      obtain ⟨x, n, rfl, hx, hword⟩ := operands_of_register_immediate hregs hbytes h
      refine ⟨.assign x (n.toInt % 65536), by simp [Opcode.effect?, hx, Token.number?], ?_⟩
      rw [Machine.effect_load, register_eq_ok hx, hword]
      exact Machine.conclude_ok m _ (by decide)
  | add =>
      exact simulated_combine hregs hbytes (by decide) h (· + ·) (· + ·) (fun _ _ => by simp)
        (fun _ => rfl) (fun _ _ _ => rfl)
  | sub =>
      exact simulated_combine hregs hbytes (by decide) h (· - ·) (· - ·) (fun _ _ => by simp)
        (fun _ => rfl) (fun _ _ _ => rfl)
  | mul =>
      exact simulated_combine hregs hbytes (by decide) h (· * ·) (· * ·) (fun _ _ => by simp)
        (fun _ => rfl) (fun _ _ _ => rfl)
  | div =>
      obtain ⟨x, y, d, rfl, hx, hy, hd⟩ := operands_of_three_registers hregs hbytes h
      refine ⟨.divide d (m.value x) (m.value y), by simp [Opcode.effect?, hx, hy, hd], ?_⟩
      exact Machine.conclude_divide m (register_eq_ok hx) (register_eq_ok hy) (register_eq_ok hd)
  | jmp =>
      exact simulated_jump hregs hbytes (by decide) h (fun _ v => v) (fun _ => rfl) (fun _ => rfl)
  | jmpf =>
      exact simulated_jump hregs hbytes (by decide) h (· + ·) (fun _ => rfl) (fun _ => rfl)
  | jmpb =>
      exact simulated_jump hregs hbytes (by decide) h (· - ·) (fun _ => rfl) (fun _ => rfl)
  | eq =>
      exact simulated_compare hregs hbytes (by decide) h (· == ·) (fun x y => decide (x = y))
        (fun _ _ => by rw [Bool.eq_iff_iff]; simp [Int32.toInt_inj]) (fun _ => rfl) (fun _ _ => rfl)
  | neq =>
      exact simulated_compare hregs hbytes (by decide) h (· != ·) (fun x y => decide (x ≠ y))
        (fun _ _ => by rw [Bool.eq_iff_iff]; simp [Int32.toInt_inj]) (fun _ => rfl) (fun _ _ => rfl)
  | gt =>
      exact simulated_compare hregs hbytes (by decide) h (fun x y => decide (y < x))
        (fun x y => decide (x > y)) (fun _ _ => by simp [Int32.lt_iff_toInt_lt]) (fun _ => rfl)
        (fun _ _ => rfl)
  | lt =>
      exact simulated_compare hregs hbytes (by decide) h (fun x y => decide (x < y))
        (fun x y => decide (x < y)) (fun _ _ => by simp [Int32.lt_iff_toInt_lt]) (fun _ => rfl)
        (fun _ _ => rfl)
  | gtq =>
      exact simulated_compare hregs hbytes (by decide) h (fun x y => decide (y ≤ x))
        (fun x y => decide (x ≥ y)) (fun _ _ => by simp [Int32.le_iff_toInt_le]) (fun _ => rfl)
        (fun _ _ => rfl)
  | ltq =>
      exact simulated_compare hregs hbytes (by decide) h (fun x y => decide (x ≤ y))
        (fun x y => decide (x ≤ y)) (fun _ _ => by simp [Int32.le_iff_toInt_le]) (fun _ => rfl)
        (fun _ _ => rfl)
  | jmpe =>
      obtain ⟨x, rfl, hx⟩ := operands_of_register hregs hbytes h
      have heffect : { m with pc := m.pc + 4 }.effect .jmpe a b c =
          if m.flag then { m with pc := m.pc + 4 }.jump (m.value x)
          else .ok { m with pc := m.pc + 4 } := by
        rw [Machine.effect_jmpe, register_eq_ok hx]
        rfl
      -- the jump is made only if the flag is set
      by_cases hflag : m.flag = true
      · rw [if_pos hflag] at heffect
        refine simulated_of_eq heffect (e := .goTo (m.value x)) ?_ ?_
        · simp [Opcode.effect?, hx, hflag]
        · exact Machine.conclude_jump m (by decide) _
      · rw [if_neg hflag] at heffect
        refine simulated_of_eq heffect (e := .skip) ?_ ?_
        · simp [Opcode.effect?, hx, hflag]
        · exact Machine.conclude_ok m _ (by decide)
  | aloc =>
      obtain ⟨x, rfl, hx⟩ := operands_of_register hregs hbytes h
      refine ⟨.allocate (m.value x), by simp [Opcode.effect?, hx], ?_⟩
      exact Machine.conclude_allocate m (register_eq_ok hx)
  | inc =>
      exact simulated_assign hregs hbytes (by decide) h (· + 1) (· + 1) (fun _ => by simp)
        (fun _ => rfl) (fun _ => rfl)
  | dec =>
      exact simulated_assign hregs hbytes (by decide) h (· - 1) (· - 1) (fun _ => by simp)
        (fun _ => rfl) (fun _ => rfl)

end Operands

/-! ## §6. Every instruction of an assembled program. -/

/-- The registers of an encoded instruction are registers of the machine. -/
theorem register_lt_of_encoded {table : SymbolTable} {op : UInt8} {ts : List Token} {bs : Bytes}
    (h : operandsBytes table op [] ts = .ok bs) {index : UInt8} (hmem : .register index ∈ ts) :
    index.toNat < registerCount := by
  obtain ⟨these, hthese⟩ := operandBytes_of_mem h hmem
  simp only [operandBytes] at hthese
  split at hthese
  · exact absurd hthese (by simp)
  · next hlt => exact Nat.lt_of_not_le hlt

/-- Whether a fault is one of the source: it comes from the values an instruction meets and not from
the way it is encoded. -/
def Cause.isOfSource : Cause → Bool
  | .divisionByZero | .jumpOutOfRange _ _ | .negativeAllocation _ => true
  | .illegalInstruction _ | .invalidRegister _ => false

/-- Carrying out an effect fails only for a reason of the source. -/
theorem isOfSource_of_carryOut {m : Machine} (hfault : m.fault = none) {next : Int} {e : Effect}
    {f : Fault} (h : (m.carryOut next e).2.fault = some f) : f.cause.isOfSource := by
  have hgood : m.fault ≠ some f := by
    rw [hfault]
    simp
  have hfailed : ∀ cause : Cause, cause.isOfSource → (m.failed cause).2.fault = some f →
      f.cause.isOfSource := by
    intro cause hcause hf
    have hf' : some (⟨m.pc, cause⟩ : Fault) = some f := hf
    rw [← Option.some.inj hf']
    exact hcause
  cases e with
  | halt => exact absurd h hgood
  | skip => exact absurd h hgood
  | assign r v => exact absurd h hgood
  | compare b => exact absurd h hgood
  | divide r x y =>
      simp only [Machine.carryOut] at h
      split at h
      · exact hfailed _ rfl h
      · exact absurd h hgood
  | goTo target =>
      simp only [Machine.carryOut] at h
      split at h
      · exact absurd h hgood
      · exact hfailed _ rfl h
  | allocate size =>
      simp only [Machine.carryOut] at h
      split at h
      · exact hfailed _ rfl h
      · exact absurd h hgood

/-- The slot of an instruction is the byte of its operation and three operand bytes. -/
theorem slotImage_eq_cons {p : Program} {r : Record} {byte : UInt8} (hhead : r.head = .op byte) :
    p.slotImage r = byte :: p.argumentBytes r.operands := by
  simp only [Program.slotImage, hhead, Program.argumentBytes, List.cons_append]

/-- The bytes at an address of the code are those of the instruction there. -/
theorem code_getElem? {p : Program} (hlength : ∀ r ∈ p.instructions, (p.slotImage r).length = 4)
    {m : Machine} (hcode : m.code = (p.instructions.flatMap p.slotImage).toArray) {k j : Nat}
    (hk : k < p.instructions.length) (hj : j < 4) :
    m.code[4 * k + j]? = (p.slotImage p.instructions[k])[j]? := by
  rw [hcode, List.getElem?_toArray]
  exact getElem?_flatMap_slots p.slotImage p.instructions hlength k j hk hj

/-- **Assembled code simulates its source.**  In any state that holds the code of a program, at the
address of its `k`-th instruction, a step has the effect of that instruction on its source operands,
and it never fails for the way the instruction is encoded. -/
theorem step_eq_carryOut_effect? (p : Program) (hp : ∀ r ∈ p, r.isOperation ∨ r.isDirective)
    (hfits : ∀ r ∈ p.instructions, r.Fits) (img : Image) (himg : p.assemble.result = .ok img)
    (k : Nat) (hk : k < p.instructions.length) (m : Machine)
    (hcode : m.code = (Machine.fresh.loadImage img).code) (hfault : m.fault = none)
    (hpc : m.pc = 4 * k) :
    ∃ e, p.instructions[k].effect? m (4 * (k + 1)) = some e ∧
      m.step = m.carryOut (4 * (k + 1)) e ∧
      ∀ f, m.step.2.fault = some f → f.cause.isOfSource := by
  obtain ⟨table, hreal⟩ := Program.realises_of_assemble hp himg
  have hmem : p.instructions[k] ∈ p.instructions := List.getElem_mem hk
  obtain ⟨byte, bs, hhead, hops⟩ := hreal.encoded _ hmem
  obtain ⟨op, hop, hkinds⟩ := hfits _ hmem
  have hmapped : Opcode.ofByte? byte = some op := by
    simpa only [Record.opcode?, hhead] using hop
  -- the slot has the byte of the operation and three more
  have hslot : p.slotImage p.instructions[k] = byte :: p.argumentBytes p.instructions[k].operands :=
    slotImage_eq_cons hhead
  have hthree : (p.argumentBytes p.instructions[k].operands).length = 3 := by
    have hfour := hreal.length _ hmem
    rw [hslot, List.length_cons] at hfour
    omega
  obtain ⟨a, b, c, habc⟩ := List.length_eq_three.mp hthree
  -- and it is what the machine fetches
  have hcode' : m.code = (p.instructions.flatMap p.slotImage).toArray := by
    rw [hcode, ← hreal.code]
    show #[] ++ img.code.toArray = img.code.toArray
    simp
  have hbyte : ∀ j, j < 4 → m.code[4 * k + j]? = [byte, a, b, c][j]? := by
    intro j hj
    rw [code_getElem? hreal.length hcode' hk hj, hslot, habc]
  have hfetch : m.fetch = .slot op a b c :=
    Machine.fetch_eq_slot (by rw [hpc]; push_cast; rfl) hmapped (hbyte 0 (by decide))
      (hbyte 1 (by decide)) (hbyte 2 (by decide)) (hbyte 3 (by decide))
  obtain ⟨e, heffect, hconclude⟩ :=
    simulated_of_shape (fun index => register_lt_of_encoded hops) habc m op hkinds
  have hstep : m.step = m.carryOut (m.pc + 4) e :=
    (Machine.step_eq_conclude hfault hfetch).trans hconclude
  have hnext : m.pc + 4 = 4 * (k + 1) := by
    rw [hpc]
    omega
  rw [hnext] at heffect hstep
  refine ⟨e, ?_, hstep, ?_⟩
  · simp only [Record.effect?, hop]
    exact heffect
  · intro f hf
    rw [hstep] at hf
    exact isOfSource_of_carryOut hfault hf

/-- A number that does not fit into sixteen bits, then a quotient. -/
def simulationSample : Program :=
  [{ head := .directive (ascii "code") },
    { head := .op 1, operands := [.register 1, .immediate (-2)] },
    { head := .op 5, operands := [.register 1, .register 2, .register 3] }]

/-- A machine at the quotient, where register 2 is -7. -/
def simulationState : Machine :=
  { Machine.fresh.loadImage ⟨[], [1, 1, 255, 254, 5, 1, 2, 3]⟩ with
    pc := 4, regs := (Vector.replicate registerCount 0).set 1 65534 |>.set 2 (-7) }

theorem step_eq_carryOut_effect?_sample :
    (∀ r ∈ simulationSample.instructions, r.Fits) ∧
    simulationSample.assemble.result = .ok ⟨[], [1, 1, 255, 254, 5, 1, 2, 3]⟩ ∧
    (∃ e, (simulationSample.instructions.get ⟨1, by decide⟩).effect? simulationState 8 = some e ∧
      simulationState.step = simulationState.carryOut 8 e) ∧
    simulationState.step.2.value ⟨3, by decide⟩ = -9362 := by
  have hfits : ∀ r ∈ simulationSample.instructions, r.Fits := by
    intro r hr
    have hr' : r ∈ simulationSample.tail := hr
    simp only [simulationSample, List.tail_cons, List.mem_cons, List.not_mem_nil, or_false] at hr'
    rcases hr' with rfl | rfl
    · exact ⟨.load, rfl, .cons (.register 1) (.cons (.immediate (-2)) .nil)⟩
    · exact ⟨.div, rfl, .cons (.register 1) (.cons (.register 2) (.cons (.register 3) .nil))⟩
  have himg : simulationSample.assemble.result = .ok ⟨[], [1, 1, 255, 254, 5, 1, 2, 3]⟩ := rfl
  obtain ⟨e, heffect, hstep, -⟩ := step_eq_carryOut_effect? simulationSample (by decide) hfits _ himg
    1 (by decide) simulationState rfl rfl rfl
  exact ⟨hfits, himg, ⟨e, heffect, hstep⟩, by decide⟩

end Quartet
