/-
  Quartet.Proofs.Machine.Faults
  ─────────────────────────────
  **A FAULT CHANGES NOTHING ELSE AND STAYS.**

  What one step can do is said once, in `Machine.Stepped`: it finds the machine at fault, finds no
  whole instruction, faults, or carries an instruction out.  Everything about steps follows from
  that, together with two facts about instructions: one that fails has written nothing
  (`Action.atomic_execute`), and one that is carried out leaves the program alone.

    • `Machine.effect_on` — an instruction neither reads nor writes the data, the count and the
      fault, and of the code it reads the size only,
    • `Machine.step_faulted_iff` — a step signals a fault exactly if the machine is at fault after it,
    • `Machine.callAll_of_fault` — while the machine is at fault, calls leave it as it is,
    • `fault_atomic_and_sticky` — both for every machine and every sequence of calls.
-/
import Quartet.Bytes
import Quartet.Proofs.Machine.Actions

namespace Quartet

namespace Machine

/-! ## §1. Calls. -/

/-- A call on a machine. -/
inductive Call where
  /-- Carry out one instruction. -/
  | step
  /-- Carry out instructions until the machine stops. -/
  | run
  /-- Append code. -/
  | load (code : Bytes)
  /-- Take over the data of a program and append its code. -/
  | loadImage (img : Image)
  /-- Apply settings. -/
  | configure (settings : List Setting)
  /-- Start over. -/
  | reset
  /-- Start over without a program. -/
  | clear
deriving DecidableEq, Repr

/-- Whether a call goes on from the state as it is, rather than setting up or starting over. -/
def Call.goesOn : Call → Bool
  | .step | .run | .load _ | .loadImage _ => true
  | .configure _ | .reset | .clear => false

/-- Whether a call gives a signal. -/
def Call.signals : Call → Bool
  | .step | .run => true
  | _ => false

/-- The code that a call appends. -/
def Call.bytes : Call → Bytes
  | .load code => code
  | .loadImage img => img.code
  | _ => []

/-- Makes a call.  The signal is that of a step or a run. -/
def call (m : Machine) : Call → Option Signal × Machine
  | .step => (some m.step.1, m.step.2)
  | .run => (some m.run.1, m.run.2)
  | .load code => (none, m.load code)
  | .loadImage img => (none, m.loadImage img)
  | .configure settings => (none, (m.configureAll settings).1)
  | .reset => (none, m.reset)
  | .clear => (none, m.clear)

/-- Makes calls in order, and gives their signals. -/
def callAll (m : Machine) : List Call → List Signal × Machine
  | [] => ([], m)
  | c :: cs => ((m.call c).1.toList ++ ((m.call c).2.callAll cs).1, ((m.call c).2.callAll cs).2)

theorem load_nil (m : Machine) : m.load [] = m := by
  simp [load]

theorem callAll_append (cs ds : List Call) :
    ∀ m : Machine, m.callAll (cs ++ ds)
      = ((m.callAll cs).1 ++ ((m.callAll cs).2.callAll ds).1, ((m.callAll cs).2.callAll ds).2) := by
  induction cs with
  | nil => intro m; rfl
  | cons c cs ih =>
      intro m
      show ((m.call c).1.toList ++ ((m.call c).2.callAll (cs ++ ds)).1,
        ((m.call c).2.callAll (cs ++ ds)).2) = _
      rw [ih, ← List.append_assoc]
      rfl

/-! ## §2. Instructions leave the program alone. -/

/-- The state of `m` at work on what `other` is loaded with: its code and data, its count and its
fault. -/
def on (m other : Machine) : Machine :=
  { m with code := other.code, data := other.data, count := other.count, fault := other.fault }

section Effects

variable {m next other : Machine} {a b c : UInt8}

theorem combine_on {f : Int32 → Int32 → Int32} (h : m.combine f a b c = .ok next) :
    (m.on other).combine f a b c = .ok (next.on other) := by
  rw [combine_eq] at h
  obtain ⟨x, ha, h⟩ := bind_eq_ok h
  obtain ⟨y, hb, h⟩ := bind_eq_ok h
  obtain ⟨d, hc, h⟩ := bind_eq_ok h
  rw [combine_eq]
  rw [ha, hb, hc, ← Except.ok.inj h]
  rfl

theorem compare_on {f : Int32 → Int32 → Bool} (h : m.compare f a b = .ok next) :
    (m.on other).compare f a b = .ok (next.on other) := by
  rw [compare_eq] at h
  obtain ⟨x, ha, h⟩ := bind_eq_ok h
  obtain ⟨y, hb, h⟩ := bind_eq_ok h
  rw [compare_eq]
  rw [ha, hb, ← Except.ok.inj h]
  rfl

theorem divide_on (h : m.divide a b c = .ok next) :
    (m.on other).divide a b c = .ok (next.on other) := by
  rw [divide_eq] at h
  obtain ⟨x, ha, h⟩ := bind_eq_ok h
  obtain ⟨y, hb, h⟩ := bind_eq_ok h
  obtain ⟨d, hc, h⟩ := bind_eq_ok h
  rw [divide_eq]
  rw [ha, hb, hc]
  -- the divisor is looked at after all three registers were found
  show (if m.get y = 0 then _ else _) = _
  by_cases hzero : m.get y = 0
  · rw [if_pos hzero] at h
    exact absurd h nofun
  · rw [if_neg hzero] at h ⊢
    rw [← Except.ok.inj h]
    rfl

theorem allocate_on (h : m.allocate a = .ok next) :
    (m.on other).allocate a = .ok (next.on other) := by
  rw [allocate_eq] at h
  obtain ⟨r, ha, h⟩ := bind_eq_ok h
  rw [allocate_eq]
  rw [ha]
  show (if m.get r < 0 then _ else _) = _
  by_cases hneg : m.get r < 0
  · rw [if_pos hneg] at h
    exact absurd h nofun
  · rw [if_neg hneg] at h ⊢
    rw [← Except.ok.inj h]
    rfl

theorem adjust_on {f : Int32 → Int32} (h : m.adjust f a = .ok next) :
    (m.on other).adjust f a = .ok (next.on other) := by
  rw [adjust_eq] at h ⊢
  obtain ⟨r, ha, h⟩ := bind_eq_ok h
  rw [ha, ← Except.ok.inj h]
  rfl

/-- A target that lies in the code still does if the code is longer. -/
theorem jump_on {target : Int} (h : m.jump target = .ok next) (hsize : m.code.size ≤ other.code.size) :
    (m.on other).jump target = .ok (next.on other) := by
  rw [jump_eq] at h ⊢
  by_cases hin : 0 ≤ target ∧ target < m.code.size
  · have hin' : 0 ≤ target ∧ target < other.code.size := by omega
    rw [if_pos hin] at h
    rw [if_pos (show 0 ≤ target ∧ target < (m.on other).code.size from hin'), ← Except.ok.inj h]
    rfl
  · rw [if_neg hin] at h
    exact absurd h nofun

theorem jumpBy_on {f : Int → Int → Int} (h : m.jumpBy f a = .ok next)
    (hsize : m.code.size ≤ other.code.size) : (m.on other).jumpBy f a = .ok (next.on other) := by
  rw [jumpBy_eq] at h ⊢
  obtain ⟨r, ha, h⟩ := bind_eq_ok h
  rw [ha]
  exact jump_on h hsize

/-- **An instruction that is carried out is carried out in the same way on any other program that is
not shorter**, and leaves that program, its count and its fault alone. -/
theorem effect_on {op : Opcode} (h : m.effect op a b c = .ok next)
    (hsize : m.code.size ≤ other.code.size) :
    (m.on other).effect op a b c = .ok (next.on other) := by
  cases op with
  -- most instructions do not look at the code at all
  | hlt => rw [← Except.ok.inj h]; rfl
  | add => exact combine_on h
  | sub => exact combine_on h
  | mul => exact combine_on h
  | div => exact divide_on h
  | eq => exact compare_on h
  | neq => exact compare_on h
  | gt => exact compare_on (f := fun x y => decide (y < x)) h
  | lt => exact compare_on (f := fun x y => decide (x < y)) h
  | gtq => exact compare_on (f := fun x y => decide (y ≤ x)) h
  | ltq => exact compare_on (f := fun x y => decide (x ≤ y)) h
  | aloc => exact allocate_on h
  | inc => exact adjust_on (f := (· + 1)) h
  | dec => exact adjust_on (f := (· - 1)) h
  | load =>
      rw [effect_load] at h ⊢
      obtain ⟨r, ha, h⟩ := bind_eq_ok h
      rw [ha, ← Except.ok.inj h]
      rfl
  -- a jump looks at its size
  | jmp => exact jumpBy_on (f := fun _ value => value) h hsize
  | jmpf => exact jumpBy_on (f := (· + ·)) h hsize
  | jmpb => exact jumpBy_on (f := (· - ·)) h hsize
  | jmpe =>
      rw [effect_jmpe] at h ⊢
      obtain ⟨r, ha, h⟩ := bind_eq_ok h
      rw [ha]
      show (if m.flag = true then (m.on other).jump (m.get r).toInt else .ok (m.on other)) = _
      by_cases hflag : m.flag = true
      · rw [if_pos hflag] at h ⊢
        exact jump_on h hsize
      · rw [if_neg hflag] at h ⊢
        rw [← Except.ok.inj h]

/-- An instruction that is carried out changes neither the code nor the data, the count or the
fault. -/
theorem eq_on_of_effect {op : Opcode} (h : m.effect op a b c = .ok next) : next = next.on m := by
  have hsame : (m.on m).effect op a b c = .ok (next.on m) := effect_on h (Nat.le_refl _)
  exact Except.ok.inj (h.symm.trans hsame)

end Effects

/-! ## §3. Everything a step can do. -/

/-- The results of a step, one case for each way it can go. -/
inductive Stepped (m : Machine) : Signal × Machine → Prop
  /-- The machine is at fault. -/
  | stuck (hfault : m.fault.isSome) : Stepped m (.faulted, m)
  /-- There is no whole instruction. -/
  | exhausted (hfault : m.fault = none) (hfetch : m.fetch = .exhausted) : Stepped m (.halted, m)
  /-- There is a byte that is mapped to no opcode. -/
  | illegal {byte : UInt8} (hfault : m.fault = none) (hfetch : m.fetch = .illegal byte) :
      Stepped m (.faulted, m.faultAt m.pc (.illegalInstruction byte))
  /-- The instruction fails. -/
  | failed {op : Opcode} {a b c : UInt8} {cause : Cause} (hfault : m.fault = none)
      (hfetch : m.fetch = .slot op a b c)
      (heffect : { m with pc := m.pc + 4 }.effect op a b c = .error cause) :
      Stepped m (.faulted, m.faultAt m.pc cause)
  /-- The instruction is carried out. -/
  | done {op : Opcode} {a b c : UInt8} {next : Machine} (hfault : m.fault = none)
      (hfetch : m.fetch = .slot op a b c)
      (heffect : { m with pc := m.pc + 4 }.effect op a b c = .ok next) :
      Stepped m (if op = .hlt then .halted else .proceed, { next with count := m.count + 1 })

/-- **A step does one of these.** -/
theorem stepped_step (m : Machine) : m.Stepped m.step := by
  rw [step_eq_effect]
  by_cases hfault : m.fault.isSome
  · rw [if_pos hfault]
    exact Stepped.stuck hfault
  · rw [if_neg hfault]
    have hnone : m.fault = none := by simpa using hfault
    cases hfetch : m.fetch with
    | exhausted => exact Stepped.exhausted hnone hfetch
    | illegal byte => exact Stepped.illegal hnone hfetch
    | slot op a b c =>
        simp only
        cases heffect : { m with pc := m.pc + (slotSize : Int) }.effect op a b c with
        | error cause => exact Stepped.failed hnone hfetch heffect
        | ok next =>
            -- the count was not touched on the way
            have hcount : next.count = m.count := by rw [eq_on_of_effect heffect]; rfl
            simp only [hcount]
            exact Stepped.done hnone hfetch heffect

theorem stepped_of_eq {m : Machine} {r : Signal × Machine} (h : m.step = r) : m.Stepped r :=
  h ▸ m.stepped_step

/-! ## §4. A step that faults. -/

theorem done_ne_faulted (op : Opcode) :
    (if op = .hlt then Signal.halted else Signal.proceed) ≠ .faulted := by
  by_cases hop : op = .hlt
  · rw [if_pos hop]; decide
  · rw [if_neg hop]; decide

/-- **A step signals a fault exactly if the machine is at fault after it.** -/
theorem step_faulted_iff (m : Machine) : m.step.1 = .faulted ↔ m.step.2.fault.isSome := by
  have h := m.stepped_step
  generalize m.step = r at h ⊢
  cases h with
  | stuck hfault => exact ⟨fun _ => hfault, fun _ => rfl⟩
  | exhausted hfault hfetch =>
      -- the machine is the one before, and that was not at fault
      show Signal.halted = .faulted ↔ m.fault.isSome
      rw [hfault]
      decide
  | illegal hfault hfetch => exact ⟨fun _ => rfl, fun _ => rfl⟩
  | failed hfault hfetch heffect => exact ⟨fun _ => rfl, fun _ => rfl⟩
  | @done op a b c next hfault hfetch heffect =>
      have hnext : next.fault = none := by rw [eq_on_of_effect heffect]; exact hfault
      refine ⟨fun h => absurd h (done_ne_faulted op), ?_⟩
      intro h
      change next.fault.isSome at h
      rw [hnext] at h
      exact absurd h (by decide)

/-- A step that signals a fault changes nothing but the fault, and that only if there was none. -/
theorem step_of_faulted {m : Machine} (h : m.step.1 = .faulted) :
    m.step.2 = { m with fault := m.step.2.fault } ∧
      (m.fault.isSome ∧ m.step.2.fault = m.fault ∨
        m.fault = none ∧ ∃ cause, m.step.2.fault = some ⟨m.pc, cause⟩) := by
  have hstepped := m.stepped_step
  generalize m.step = r at h hstepped ⊢
  cases hstepped with
  -- only a machine that was at fault keeps its fault; the others get a new one at their place
  | stuck hfault => exact ⟨rfl, Or.inl ⟨hfault, rfl⟩⟩
  | exhausted hfault hfetch => exact absurd h nofun
  | illegal hfault hfetch => exact ⟨rfl, Or.inr ⟨hfault, _, rfl⟩⟩
  | failed hfault hfetch heffect => exact ⟨rfl, Or.inr ⟨hfault, _, rfl⟩⟩
  | @done op a b c next hfault hfetch heffect => exact absurd h (done_ne_faulted op)

/-! ## §5. A machine at fault. -/

section AtFault

variable {m : Machine} (hfault : m.fault.isSome)
include hfault

theorem step_of_fault : m.step = (.faulted, m) := by
  unfold step
  rw [if_pos hfault]

theorem run_of_fault : m.run = (.faulted, m) := by
  show m.runFor (0x7FFFFFFFFFFFFFFE + 1) = _
  rw [runFor_succ, step_of_fault hfault]

/-- A call leaves a machine at fault as it is, but for what it loads. -/
theorem call_of_fault {c : Call} (hc : c.goesOn) :
    (m.call c).1 = (if c.signals then some .faulted else none) ∧
      ∃ data, (m.call c).2 = { m.load c.bytes with data := data } := by
  cases c with
  | step =>
      show some m.step.1 = some .faulted ∧ ∃ data, m.step.2 = { m.load [] with data := data }
      rw [step_of_fault hfault, load_nil]
      exact ⟨rfl, m.data, rfl⟩
  | run =>
      show some m.run.1 = some .faulted ∧ ∃ data, m.run.2 = { m.load [] with data := data }
      rw [run_of_fault hfault, load_nil]
      exact ⟨rfl, m.data, rfl⟩
  | load code => exact ⟨rfl, m.data, rfl⟩
  | loadImage img => exact ⟨rfl, m.data.empty.append img.data.toArray, rfl⟩
  | configure settings => exact absurd hc nofun
  | reset => exact absurd hc nofun
  | clear => exact absurd hc nofun

/-- **So do any number of calls, and every step and every run among them signals the fault.** -/
theorem callAll_of_fault {cs : List Call} (hcs : ∀ c ∈ cs, c.goesOn) :
    (m.callAll cs).1 = List.replicate (cs.countP Call.signals) .faulted ∧
      ∃ data, (m.callAll cs).2 = { m.load (cs.flatMap Call.bytes) with data := data } := by
  induction cs generalizing m with
  | nil =>
      refine ⟨rfl, m.data, ?_⟩
      show m = { m.load [] with data := m.data }
      rw [load_nil]
  | cons c cs ih =>
      obtain ⟨hsignal, data, hcall⟩ := call_of_fault hfault (hcs c List.mem_cons_self)
      -- the fault is still there for the calls that follow
      have hstill : (m.call c).2.fault.isSome := by rw [hcall]; exact hfault
      obtain ⟨hsignals, data', hrest⟩ := ih hstill fun d hd => hcs d (List.mem_cons_of_mem _ hd)
      refine ⟨?_, data', ?_⟩
      · show (m.call c).1.toList ++ ((m.call c).2.callAll cs).1 = _
        rw [hsignal, hsignals, List.countP_cons]
        cases c.signals <;> rfl
      · show ((m.call c).2.callAll cs).2 = _
        rw [hrest, hcall, List.flatMap_cons, load_append]
        rfl

end AtFault

end Machine

/-- **A fault is atomic and sticky.**  An instruction that fails has written nothing before, wherever
the program counter is by then.  A step signals a fault exactly if it leaves one behind.  It then
has changed nothing else, and not the fault either if there was one.  From then on, calls other than
to set up or to start over change nothing but the code and data they load, and every step and every
run among them signals the fault; starting over removes it. -/
theorem fault_atomic_and_sticky (m : Machine) :
    (∀ op a b c cause left, Action.execute op a b c m = .error cause left → left = m) ∧
    (m.step.1 = .faulted ↔ m.step.2.fault.isSome) ∧
    (m.step.1 = .faulted →
      m.step.2 = { m with fault := m.step.2.fault } ∧
        (m.fault.isSome ∧ m.step.2.fault = m.fault ∨
          m.fault = none ∧ ∃ cause, m.step.2.fault = some ⟨m.pc, cause⟩)) ∧
    (m.fault.isSome → ∀ cs : List Machine.Call, (∀ c ∈ cs, c.goesOn) →
      (m.callAll cs).1 = List.replicate (cs.countP Machine.Call.signals) .faulted ∧
        ∃ data, (m.callAll cs).2 =
          { m with code := m.code ++ (cs.flatMap Machine.Call.bytes).toArray, data := data }) ∧
    m.reset.fault = none ∧ m.clear.fault = none :=
  ⟨fun op a b c => Action.atomic_execute op a b c m, m.step_faulted_iff, Machine.step_of_faulted,
    fun h _ => Machine.callAll_of_fault h, rfl, rfl⟩

/-- A machine at a quotient whose third register there is not, with the divisor zero as well. -/
def faultSample : Machine :=
  { Machine.fresh.loadImage ⟨[7], [5, 4, 2, 32]⟩ with
    regs := (Vector.replicate registerCount 0).set 4 9, flag := true, remainder := 3, count := 6 }

theorem fault_atomic_and_sticky_sample :
    faultSample.step =
      (.faulted, { faultSample with fault := some ⟨0, .invalidRegister 32⟩ }) ∧
    (faultSample.callAll [.step, .load [0, 0], .run, .loadImage ⟨[8], [0]⟩, .step]).1 =
      [.faulted, .faulted, .faulted] ∧
    (faultSample.callAll [.step, .load [0, 0], .run, .loadImage ⟨[8], [0]⟩, .step]).2.regs =
      faultSample.regs := by
  have hstep : faultSample.step =
      (.faulted, { faultSample with fault := some ⟨0, .invalidRegister 32⟩ }) := by decide
  obtain ⟨-, -, -, hsticky, -⟩ := fault_atomic_and_sticky faultSample.step.2
  obtain ⟨hsignals, data, hstate⟩ := hsticky (by rw [hstep]; rfl)
    [.load [0, 0], .run, .loadImage ⟨[8], [0]⟩, .step] (by decide)
  refine ⟨hstep, ?_, ?_⟩
  · show [faultSample.step.1] ++ (faultSample.step.2.callAll _).1 = _
    rw [hsignals, hstep]
    rfl
  · show (faultSample.step.2.callAll _).2.regs = _
    rw [hstate, hstep]

end Quartet
