/-
  Quartet.Proofs.Machine.Restart
  ──────────────────────────────
  **STARTING OVER FORGETS THE PAST.**

  Of a machine one can observe everything but the memory behind its two buffers, which is kept when
  they are emptied.  No instruction looks at that memory, and none looks at the bytes in it either:

    • `Machine.exists_extends_effect`, `Machine.indifferent_step` — what an instruction does is the same
      on any buffers, and so are the bytes that it adds to the heap,
    • `Machine.view_call`, `Machine.view_callAll` — machines that look the same behave in the same way
      under any calls,
    • `Machine.view_reset` — a machine that starts over looks like a new one with its program,
    • `Machine.Indifferent.restart`, `Machine.callAll_reset` — so steps and runs can be repeated, down
      to the memory.
-/
import Quartet.Proofs.Machine.Reachable

namespace Quartet

/-! ## §1. Buffers. -/

namespace Buffer

theorem append_nothing (b : Buffer) : b.append #[] = b := by
  simp [append]

theorem append_of_ne (b : Buffer) {x : Array UInt8} (hx : x ≠ #[]) :
    b.append x = ⟨b.bytes ++ x, some (max (b.peak.getD 0) (b.bytes.size + x.size))⟩ := by
  simp [append, hx]

/-- Adding bytes twice is adding them at once: the second time the buffer holds more. -/
theorem append_append (b : Buffer) (x y : Array UInt8) :
    (b.append x).append y = b.append (x ++ y) := by
  by_cases hx : x = #[]
  · rw [hx, append_nothing, Array.empty_append]
  · by_cases hy : y = #[]
    · rw [hy, append_nothing, Array.append_empty]
    · have hpeak : max (max (b.peak.getD 0) (b.bytes.size + x.size)) (b.bytes.size + x.size + y.size)
          = max (b.peak.getD 0) (b.bytes.size + (x.size + y.size)) := by omega
      have hboth : x ++ y ≠ #[] := by simp [hx]
      rw [append_of_ne b hx, append_of_ne _ hy, append_of_ne b hboth]
      show Buffer.mk _ (some (max (max _ _) ((b.bytes ++ x).size + y.size))) = _
      rw [Array.size_append, Array.size_append, hpeak, Array.append_assoc]

/-- Emptied and filled again with the same bytes, a buffer is what it was: the second time it needs no
more memory. -/
theorem append_empty_append {b : Buffer} (h : b.bytes = #[]) (x : Array UInt8) :
    (b.append x).empty.append x = b.append x := by
  by_cases hx : x = #[]
  · rw [hx, append_nothing, append_nothing]
    show Buffer.mk #[] b.peak = b
    rw [← h]
  · have hpeak : max (max (b.peak.getD 0) (b.bytes.size + x.size)) (b.bytes.size + x.size)
          = max (b.peak.getD 0) (b.bytes.size + x.size) := by omega
    rw [append_of_ne b hx, append_of_ne _ hx]
    show Buffer.mk (#[] ++ x) (some (max (max _ _) ((#[] : Array UInt8).size + x.size))) = _
    rw [← h, hpeak]

end Buffer

namespace Machine

/-! ## §2. Instructions on other memory. -/

/-- The state of `m` with other buffers behind it. -/
def backed (m : Machine) (heap data : Buffer) : Machine := { m with heap := heap, data := data }

/-- An operation that fails or goes well whatever the buffers hold, and then leaves the data alone and
adds `more` to the heap. -/
def Extends (m : Machine) (more : Array UInt8) (e : Machine → Except Cause Machine) : Prop :=
  ∀ heap data, e (m.backed heap data) = (e m).map (·.backed (heap.append more) data)

section Effects

variable {m : Machine}

/-- To leave both buffers alone is to add nothing. -/
theorem extends_nothing {e : Machine → Except Cause Machine}
    (h : ∀ heap data, e (m.backed heap data) = (e m).map (·.backed heap data)) :
    m.Extends #[] e := by
  intro heap data
  rw [heap.append_nothing]
  exact h heap data

theorem extends_bind_register (a : UInt8) {more : Array UInt8}
    {e : Fin registerCount → Machine → Except Cause Machine} (h : ∀ r, m.Extends more (e r)) :
    m.Extends more fun m => register a >>= fun r => e r m := by
  intro heap data
  cases hr : register a with
  | error cause => rfl
  | ok r => exact h r heap data

theorem extends_combine (f : Int32 → Int32 → Int32) (a b c : UInt8) :
    m.Extends #[] (·.combine f a b c) := by
  simp only [combine_eq]
  apply extends_bind_register
  intro x
  apply extends_bind_register
  intro y
  apply extends_bind_register
  intro d
  exact extends_nothing fun _ _ => rfl

theorem extends_compare (f : Int32 → Int32 → Bool) (a b : UInt8) :
    m.Extends #[] (·.compare f a b) := by
  simp only [compare_eq]
  apply extends_bind_register
  intro x
  apply extends_bind_register
  intro y
  exact extends_nothing fun _ _ => rfl

theorem extends_divide (a b c : UInt8) : m.Extends #[] (·.divide a b c) := by
  simp only [divide_eq]
  apply extends_bind_register
  intro x
  apply extends_bind_register
  intro y
  apply extends_bind_register
  intro d
  apply extends_nothing
  intro heap data
  show (if m.get y = 0 then _ else _) = Except.map _ (if m.get y = 0 then _ else _)
  by_cases hzero : m.get y = 0
  · rw [if_pos hzero, if_pos hzero]
    rfl
  · rw [if_neg hzero, if_neg hzero]
    rfl

theorem extends_jump (target : Int) : m.Extends #[] (·.jump target) := by
  simp only [jump_eq]
  apply extends_nothing
  intro heap data
  show (if 0 ≤ target ∧ target < m.code.size then _ else _) =
    Except.map _ (if 0 ≤ target ∧ target < m.code.size then _ else _)
  by_cases hin : 0 ≤ target ∧ target < m.code.size
  · rw [if_pos hin, if_pos hin]
    rfl
  · rw [if_neg hin, if_neg hin]
    rfl

theorem extends_adjust (f : Int32 → Int32) (a : UInt8) : m.Extends #[] (·.adjust f a) := by
  simp only [adjust_eq]
  apply extends_bind_register
  intro r
  exact extends_nothing fun _ _ => rfl

theorem extends_jumpBy (f : Int → Int → Int) (a : UInt8) : m.Extends #[] (·.jumpBy f a) := by
  simp only [jumpBy_eq]
  apply extends_bind_register
  intro r heap data
  exact extends_jump _ heap data

/-- Only an allocation adds bytes, and their number is in a register. -/
theorem exists_extends_allocate (m : Machine) (a : UInt8) :
    ∃ more, m.Extends more (·.allocate a) := by
  cases hr : register a with
  | error cause =>
      refine ⟨#[], extends_nothing ?_⟩
      intro heap data
      simp only [allocate_eq, hr]
      rfl
  | ok r =>
      refine ⟨Array.replicate (m.get r).toInt.toNat 0, ?_⟩
      intro heap data
      simp only [allocate_eq, hr]
      show (if m.get r < 0 then _ else _) = Except.map _ (if m.get r < 0 then _ else _)
      by_cases hneg : m.get r < 0
      · rw [if_pos hneg, if_pos hneg]
        rfl
      · rw [if_neg hneg, if_neg hneg]
        rfl

/-- **An instruction goes the same way on any buffers**, and what it adds to the heap does not depend
on them. -/
theorem exists_extends_effect (m : Machine) (op : Opcode) (a b c : UInt8) :
    ∃ more, m.Extends more (·.effect op a b c) := by
  cases op with
  | aloc => exact m.exists_extends_allocate a
  -- all others add nothing
  | hlt => exact ⟨#[], extends_nothing fun _ _ => rfl⟩
  | add | sub | mul => exact ⟨#[], extends_combine _ a b c⟩
  | div => exact ⟨#[], extends_divide a b c⟩
  | eq | neq => exact ⟨#[], extends_compare _ a b⟩
  | gt => exact ⟨#[], extends_compare (fun x y => decide (y < x)) a b⟩
  | lt => exact ⟨#[], extends_compare (fun x y => decide (x < y)) a b⟩
  | gtq => exact ⟨#[], extends_compare (fun x y => decide (y ≤ x)) a b⟩
  | ltq => exact ⟨#[], extends_compare (fun x y => decide (x ≤ y)) a b⟩
  | inc => exact ⟨#[], extends_adjust (· + 1) a⟩
  | dec => exact ⟨#[], extends_adjust (· - 1) a⟩
  | load =>
      simp only [effect_load]
      refine ⟨#[], extends_bind_register a ?_⟩
      intro r
      exact extends_nothing fun _ _ => rfl
  | jmp => exact ⟨#[], extends_jumpBy (fun _ value => value) a⟩
  | jmpf => exact ⟨#[], extends_jumpBy (· + ·) a⟩
  | jmpb => exact ⟨#[], extends_jumpBy (· - ·) a⟩
  | jmpe =>
      simp only [effect_jmpe]
      refine ⟨#[], extends_bind_register a ?_⟩
      intro r heap data
      show (if m.flag = true then _ else _) = Except.map _ (if m.flag = true then _ else _)
      by_cases hflag : m.flag = true
      · rw [if_pos hflag, if_pos hflag]
        exact extends_jump _ heap data
      · rw [if_neg hflag, if_neg hflag, heap.append_nothing]
        rfl

end Effects

/-! ## §3. Steps and runs on other memory. -/

/-- What is said of a step determines it. -/
theorem Stepped.step_eq {m : Machine} {r : Signal × Machine} (h : m.Stepped r) : m.step = r := by
  cases h with
  | stuck hfault => exact step_of_fault hfault
  | exhausted hfault hfetch => simp [step_eq_effect, hfault, hfetch]
  | illegal hfault hfetch => simp [step_eq_effect, hfault, hfetch]
  | @failed op a b c cause hfault hfetch heffect =>
      have heffect' : { m with pc := m.pc + (slotSize : Int) }.effect op a b c = .error cause := heffect
      rw [step_eq_effect, if_neg (by simp [hfault]), hfetch]
      simp only [heffect']
  | done hfault hfetch heffect => exact step_of_effect hfault hfetch heffect

/-- Something done with a machine that gives the same result on any buffers, leaves the data alone and
adds bytes to the heap that do not depend on them. -/
def Indifferent {α : Type} (m : Machine) (e : Machine → α × Machine) : Prop :=
  ∃ more, ∀ heap data,
    e (m.backed heap data) = ((e m).1, (e m).2.backed (heap.append more) data)

/-- To leave both buffers alone is to add nothing. -/
theorem indifferent_of_eq {α : Type} {m : Machine} {e : Machine → α × Machine}
    (h : ∀ heap data, e (m.backed heap data) = ((e m).1, (e m).2.backed heap data)) :
    m.Indifferent e := by
  refine ⟨#[], ?_⟩
  intro heap data
  rw [heap.append_nothing]
  exact h heap data

/-- **A step is indifferent to the buffers.** -/
theorem indifferent_step (m : Machine) : m.Indifferent step := by
  unfold Indifferent
  have hstepped := m.stepped_step
  generalize m.step = r at hstepped ⊢
  cases hstepped with
  -- nothing is added unless an instruction is carried out
  | stuck hfault =>
      refine ⟨#[], ?_⟩
      intro heap data
      rw [heap.append_nothing]
      exact (Stepped.stuck (m := m.backed heap data) hfault).step_eq
  | exhausted hfault hfetch =>
      refine ⟨#[], ?_⟩
      intro heap data
      rw [heap.append_nothing]
      exact (Stepped.exhausted (m := m.backed heap data) hfault hfetch).step_eq
  | illegal hfault hfetch =>
      refine ⟨#[], ?_⟩
      intro heap data
      rw [heap.append_nothing]
      exact (Stepped.illegal (m := m.backed heap data) hfault hfetch).step_eq
  | @failed op a b c cause hfault hfetch heffect =>
      obtain ⟨more, hmore⟩ := exists_extends_effect { m with pc := m.pc + 4 } op a b c
      refine ⟨#[], ?_⟩
      intro heap data
      have hbacked : { m.backed heap data with pc := m.pc + 4 }.effect op a b c = .error cause :=
        (hmore heap data).trans (congrArg (Except.map _) heffect)
      rw [heap.append_nothing]
      exact (Stepped.failed (m := m.backed heap data) hfault hfetch hbacked).step_eq
  | @done op a b c next hfault hfetch heffect =>
      obtain ⟨more, hmore⟩ := exists_extends_effect { m with pc := m.pc + 4 } op a b c
      refine ⟨more, ?_⟩
      intro heap data
      have hbacked : { m.backed heap data with pc := m.pc + 4 }.effect op a b c =
          .ok (next.backed (heap.append more) data) :=
        (hmore heap data).trans (congrArg (Except.map _) heffect)
      exact (Stepped.done (m := m.backed heap data) hfault hfetch hbacked).step_eq

/-- **So is a run.** -/
theorem indifferent_runFor (m : Machine) (limit : Nat) : m.Indifferent (runFor limit) := by
  induction limit generalizing m with
  | zero => exact indifferent_of_eq fun _ _ => rfl
  | succ limit ih =>
      obtain ⟨first, hfirst⟩ := m.indifferent_step
      obtain ⟨rest, hrest⟩ := ih m.step.2
      by_cases hgo : m.step.1 = .proceed
      · -- what the first step adds comes before what the others add
        refine ⟨first ++ rest, ?_⟩
        intro heap data
        rw [runFor_succ_eq_ite, runFor_succ_eq_ite, hfirst, if_pos hgo, if_pos hgo,
          ← heap.append_append]
        exact hrest _ data
      · refine ⟨first, ?_⟩
        intro heap data
        rw [runFor_succ_eq_ite, runFor_succ_eq_ite, hfirst, if_neg hgo, if_neg hgo]

/-- Steps and runs leave the data as it is. -/
theorem Indifferent.data_eq {α : Type} {m : Machine} {e : Machine → α × Machine}
    (h : m.Indifferent e) : (e m).2.data = m.data := by
  obtain ⟨more, hmore⟩ := h
  exact congrArg (fun r => r.2.data) (hmore m.heap m.data)

/-- And the code. -/
theorem code_step (m : Machine) : m.step.2.code = m.code := by
  have hstepped := m.stepped_step
  generalize m.step = r at hstepped ⊢
  cases hstepped with
  | stuck hfault => rfl
  | exhausted hfault hfetch => rfl
  | illegal hfault hfetch => rfl
  | failed hfault hfetch heffect => rfl
  | @done op a b c next hfault hfetch heffect =>
      show next.code = m.code
      rw [eq_on_of_effect heffect]
      rfl

/-- Code that is loaded stays behind the code before. -/
theorem code_step_load (m : Machine) (code : Bytes) :
    (m.load code).step.2.code.toList = m.code.toList ++ code := by
  rw [code_step, code_load, Array.toList_append]

theorem code_runFor (m : Machine) (limit : Nat) : (m.runFor limit).2.code = m.code := by
  induction limit generalizing m with
  | zero => rfl
  | succ limit ih =>
      rw [runFor_succ_eq_ite]
      by_cases hgo : m.step.1 = .proceed
      · rw [if_pos hgo, ih, code_step]
      · rw [if_neg hgo, code_step]

/-! ## §4. What can be observed. -/

/-- Everything about a machine but the memory behind its buffers. -/
structure View where
  /-- The address of the next instruction. -/
  pc : Int
  /-- The registers. -/
  regs : Vector Int32 registerCount
  /-- What the last comparison found. -/
  flag : Bool
  /-- The remainder of the last division. -/
  remainder : UInt32
  /-- The bytes of the heap. -/
  heap : Array UInt8
  /-- The code. -/
  code : Array UInt8
  /-- The bytes of the read-only data. -/
  data : Array UInt8
  /-- The number of instructions executed. -/
  count : Nat
  /-- The fault that stopped the machine, if one did. -/
  fault : Option Fault
deriving DecidableEq

/-- What can be observed of a machine. -/
def view (m : Machine) : View where
  pc := m.pc
  regs := m.regs
  flag := m.flag
  remainder := m.remainder
  heap := m.heap.bytes
  code := m.code
  data := m.data.bytes
  count := m.count
  fault := m.fault

/-- Two machines that look the same differ in their buffers only, and these hold the same bytes. -/
theorem eq_backed_of_view {m m' : Machine} (h : m.view = m'.view) :
    m' = m.backed m'.heap m'.data ∧ m'.heap.bytes = m.heap.bytes ∧ m'.data.bytes = m.data.bytes := by
  cases m
  cases m'
  simp only [view, View.mk.injEq] at h
  simp only [backed, h, and_self]

/-- What is indifferent to the buffers goes the same way on machines that look the same, and they look
the same afterwards. -/
theorem Indifferent.view_eq {α : Type} {m m' : Machine} {e : Machine → α × Machine}
    (h : m.Indifferent e) (hview : m.view = m'.view) :
    (e m).1 = (e m').1 ∧ (e m).2.view = (e m').2.view := by
  obtain ⟨more, hmore⟩ := h
  obtain ⟨hother, hheap, hdata⟩ := eq_backed_of_view hview
  have hself : (e m).2 = (e m).2.backed (m.heap.append more) m.data :=
    congrArg Prod.snd (hmore m.heap m.data)
  have hresult := hmore m'.heap m'.data
  rw [← hother] at hresult
  rw [hresult]
  refine ⟨rfl, ?_⟩
  rw [hself]
  -- the heaps hold the same bytes, and the same are added
  simp only [view, backed, Buffer.bytes_append, hheap, hdata]

theorem view_configureAll {m m' : Machine} (h : m.view = m'.view) (settings : List Setting) :
    (m.configureAll settings).1.view = (m'.configureAll settings).1.view := by
  induction settings generalizing m m' with
  | nil => exact h
  | cons s rest ih =>
      unfold configureAll
      cases s with
      | heapSize size =>
          by_cases hneg : size < 0
          · rw [show m.configure? (.heapSize size) = none from if_pos hneg,
              show m'.configure? (.heapSize size) = none from if_pos hneg]
            exact h
          · rw [show m.configure? (.heapSize size) = some _ from if_neg hneg,
              show m'.configure? (.heapSize size) = some _ from if_neg hneg]
            exact ih (congrArg (fun v => { v with heap := Array.replicate size.toNat 0 }) h)
      | code bytes => exact ih (congrArg (fun v => { v with code := v.code ++ bytes.toArray }) h)

/-- **Machines that look the same** give the same signal to any call and look the same afterwards. -/
theorem view_call {m m' : Machine} (h : m.view = m'.view) (c : Call) :
    (m.call c).1 = (m'.call c).1 ∧ (m.call c).2.view = (m'.call c).2.view := by
  cases c with
  | step =>
      obtain ⟨hsignal, hview⟩ := m.indifferent_step.view_eq h
      exact ⟨congrArg some hsignal, hview⟩
  | run =>
      obtain ⟨hsignal, hview⟩ := (m.indifferent_runFor horizon).view_eq h
      exact ⟨congrArg some hsignal, hview⟩
  -- the other calls do not look at the memory: what is seen after them comes from what is seen before
  | load code => exact ⟨rfl, congrArg (fun v => { v with code := v.code ++ code.toArray }) h⟩
  | loadImage img =>
      exact ⟨rfl, congrArg (fun v =>
        { v with code := v.code ++ img.code.toArray, data := #[] ++ img.data.toArray }) h⟩
  | configure settings => exact ⟨rfl, view_configureAll h settings⟩
  | reset =>
      exact ⟨rfl, congrArg (fun v : View =>
        { fresh.view with code := v.code, data := v.data }) h⟩
  | clear => exact ⟨rfl, rfl⟩

/-- **And so on, for any number of calls.** -/
theorem view_callAll {m m' : Machine} (h : m.view = m'.view) (cs : List Call) :
    (m.callAll cs).1 = (m'.callAll cs).1 ∧ (m.callAll cs).2.view = (m'.callAll cs).2.view := by
  induction cs generalizing m m' with
  | nil => exact ⟨rfl, h⟩
  | cons c cs ih =>
      obtain ⟨hsignal, hview⟩ := view_call h c
      obtain ⟨hsignals, hviews⟩ := ih hview
      show (m.call c).1.toList ++ _ = (m'.call c).1.toList ++ _ ∧ _
      rw [hsignal, hsignals]
      exact ⟨rfl, hviews⟩

/-! ## §5. Starting over. -/

/-- The program that a machine is loaded with, as an image. -/
def image (m : Machine) : Image := ⟨m.data.bytes.toList, m.code.toList⟩

/-- **A machine that starts over looks like a new one that is loaded with its program.** -/
theorem view_reset (m : Machine) : m.reset.view = (fresh.loadImage m.image).view := by
  simp [view, reset, loadImage, load, image, fresh, Buffer.append, Buffer.empty]

/-- What is indifferent to the buffers and leaves the code alone can be repeated after a new start, if
the machine was at its start: it leads to the same machine, down to the memory behind its buffers. -/
theorem Indifferent.restart {α : Type} {m : Machine} {e : Machine → α × Machine}
    (h : m.Indifferent e) (hcode : (e m).2.code = m.code) (hstart : m.reset = m) :
    e (e m).2.reset = e m := by
  obtain ⟨more, hmore⟩ := h
  have hself : e m = ((e m).1, (e m).2.backed (m.heap.append more) m.data) := hmore m.heap m.data
  have hheap : (e m).2.heap = m.heap.append more := congrArg (fun r => r.2.heap) hself
  have hdata : (e m).2.data = m.data := congrArg (fun r => r.2.data) hself
  have hempty : m.heap.bytes = #[] := by
    rw [← hstart]
    rfl
  -- what is left of the first time is the memory behind the heap
  have hreset : (e m).2.reset = m.backed (m.heap.append more).empty m.data := by
    calc (e m).2.reset
        = m.reset.backed (m.heap.append more).empty m.data := by
          unfold reset
          rw [hcode, hdata, hheap]
          rfl
      _ = m.backed (m.heap.append more).empty m.data := by rw [hstart]
  rw [hreset, hmore, Buffer.append_empty_append hempty]
  exact hself.symm

theorem indifferent_call {c : Call} (hc : c.signals) (m : Machine) :
    m.Indifferent (·.call c) ∧ (m.call c).2.code = m.code := by
  cases c with
  | step =>
      obtain ⟨more, hmore⟩ := m.indifferent_step
      refine ⟨⟨more, ?_⟩, m.code_step⟩
      intro heap data
      show (some (m.backed heap data).step.1, (m.backed heap data).step.2) = _
      rw [hmore]
      rfl
  | run =>
      obtain ⟨more, hmore⟩ := m.indifferent_runFor horizon
      refine ⟨⟨more, ?_⟩, m.code_runFor horizon⟩
      intro heap data
      show (some ((m.backed heap data).runFor horizon).1, ((m.backed heap data).runFor horizon).2) = _
      rw [hmore]
      rfl
  | load code => exact absurd hc (by simp [Call.signals])
  | loadImage img => exact absurd hc (by simp [Call.signals])
  | configure settings => exact absurd hc (by simp [Call.signals])
  | reset => exact absurd hc (by simp [Call.signals])
  | clear => exact absurd hc (by simp [Call.signals])

/-- Steps and runs in any order are indifferent to the buffers, and leave the code as it is. -/
theorem indifferent_callAll {cs : List Call} (hcs : ∀ c ∈ cs, c.signals) (m : Machine) :
    m.Indifferent (·.callAll cs) ∧ (m.callAll cs).2.code = m.code := by
  induction cs generalizing m with
  | nil => exact ⟨indifferent_of_eq fun _ _ => rfl, rfl⟩
  | cons c cs ih =>
      obtain ⟨⟨first, hfirst⟩, hcode⟩ := indifferent_call (hcs c List.mem_cons_self) m
      obtain ⟨⟨rest, hrest⟩, hcodes⟩ := ih (fun d hd => hcs d (List.mem_cons_of_mem _ hd)) (m.call c).2
      refine ⟨⟨first ++ rest, ?_⟩, hcodes.trans hcode⟩
      intro heap data
      have hcall : (m.backed heap data).call c = _ := hfirst heap data
      have hcalls : ((m.call c).2.backed (heap.append first) data).callAll cs = _ := hrest _ data
      show (((m.backed heap data).call c).1.toList ++ (((m.backed heap data).call c).2.callAll cs).1,
        (((m.backed heap data).call c).2.callAll cs).2) = _
      rw [hcall, hcalls, heap.append_append]
      rfl

/-- **Steps and runs from the start can be repeated.** -/
theorem callAll_reset {m : Machine} (hstart : m.reset = m) {cs : List Call}
    (hcs : ∀ c ∈ cs, c.signals) : (m.callAll cs).2.reset.callAll cs = m.callAll cs := by
  obtain ⟨hindifferent, hcode⟩ := indifferent_callAll hcs m
  exact hindifferent.restart hcode hstart

theorem runFor_reset {m : Machine} (hstart : m.reset = m) (limit : Nat) :
    (m.runFor limit).2.reset.runFor limit = m.runFor limit :=
  (m.indifferent_runFor limit).restart (m.code_runFor limit) hstart

/-! ## §6. Machines at their start. -/

/-- Settings that make no heap leave a machine at its start. -/
theorem reset_configureAll {settings : List Setting} (hsettings : ∀ size, .heapSize size ∉ settings) :
    ∀ m : Machine, m.reset = m → (m.configureAll settings).1.reset = (m.configureAll settings).1 := by
  induction settings with
  | nil =>
      intro m hstart
      exact hstart
  | cons s rest ih =>
      intro m hstart
      cases s with
      | heapSize size => exact absurd List.mem_cons_self (hsettings size)
      | code bytes =>
          have hrest : ∀ size, .heapSize size ∉ rest := fun size hmem =>
            hsettings size (List.mem_cons_of_mem _ hmem)
          have hload : (m.load bytes).reset = m.load bytes :=
            congrArg (fun k : Machine => k.load bytes) hstart
          exact ih hrest (m.load bytes) hload

/-- Whether a call loads a program. -/
def Call.loads : Call → Bool
  | .load _ | .loadImage _ => true
  | .step | .run | .configure _ | .reset | .clear => false

/-- So does loading. -/
theorem reset_callAll {cs : List Call} (hcs : ∀ c ∈ cs, c.loads) :
    ∀ m : Machine, m.reset = m → (m.callAll cs).2.reset = (m.callAll cs).2 := by
  induction cs with
  | nil =>
      intro m hstart
      exact hstart
  | cons c cs ih =>
      intro m hstart
      have hcall : (m.call c).2.reset = (m.call c).2 := by
        have hc := hcs c List.mem_cons_self
        cases c with
        | load code => exact congrArg (fun k : Machine => k.load code) hstart
        | loadImage img => exact congrArg (fun k : Machine => k.loadImage img) hstart
        | _ => exact absurd hc (by simp [Call.loads])
      exact ih (fun d hd => hcs d (List.mem_cons_of_mem _ hd)) _ hcall

end Machine

end Quartet
