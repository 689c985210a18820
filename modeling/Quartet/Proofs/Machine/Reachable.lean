/-
  Quartet.Proofs.Machine.Reachable
  ────────────────────────────────
  **WHAT HOLDS OF EVERY MACHINE THAT CALLS LEAD TO.**

  Jumps may land on any byte, code grows between steps and is thrown away, and the end of the code is
  a place to rest but none to jump to.  Through all of it the program counter stays in the code or
  at its end, a fault stays with the byte that it is about, and the count is that of the steps taken:

    • `Machine.Reached` — the machines that calls lead to from a new one, each with the places at
      which steps were taken since it was last started over,
    • `Machine.effected_effect` — where an instruction can leave the program counter,
    • `Machine.placed_step`, `Machine.placed_runFor` — a step and a run keep the counter and the fault
      where they belong,
    • `Machine.count_step`, `Machine.count_runFor` — what a step and a run add to the count,
    • `reached_invariant` — all of this for every machine reached.
-/
import Quartet.Proofs.Machine.Loading

namespace Quartet

namespace Machine

/-! ## §1. Machines that calls lead to. -/

/-- The machines at which a bounded run takes its steps, in order: the one it starts with, and each
result but the last. -/
def stages (limit : Nat) (m : Machine) : List Machine :=
  (m :: (m.trace limit).map Prod.snd).dropLast

/-- Whether the next step carries out `hlt`. -/
def atHlt (m : Machine) : Bool :=
  m.fault.isNone &&
    match m.fetch with
    | .slot .hlt _ _ _ => true
    | _ => false

/-- **The machines that calls lead to from a new one.**  The list holds the machines at which a step
was taken since the machine was made or last started over, in order; steps inside a run count. -/
inductive Reached : List Machine → Machine → Prop
  /-- A new machine, if all of its settings were taken. -/
  | new {settings : List Setting} {m : Machine} (h : fresh.configureAll settings = (m, true)) :
      Reached [] m
  /-- One step. -/
  | step {since : List Machine} {m : Machine} (h : Reached since m) :
      Reached (since ++ [m]) m.step.2
  /-- A run that ends, after however many steps. -/
  | run {since : List Machine} {m : Machine} {limit : Nat} (h : Reached since m)
      (hends : (m.runFor limit).1 ≠ .proceed) :
      Reached (since ++ m.stages limit) (m.runFor limit).2
  /-- More code. -/
  | load {since : List Machine} {m : Machine} (h : Reached since m) (code : Bytes) :
      Reached since (m.load code)
  /-- The data of a program, and its code. -/
  | loadImage {since : List Machine} {m : Machine} (h : Reached since m) (img : Image) :
      Reached since (m.loadImage img)
  /-- Settings, up to the first that is refused. -/
  | configure {since : List Machine} {m : Machine} (h : Reached since m) (settings : List Setting) :
      Reached since (m.configureAll settings).1
  /-- Starting over. -/
  | reset {since : List Machine} {m : Machine} (h : Reached since m) : Reached [] m.reset
  /-- Starting over without a program. -/
  | clear {since : List Machine} {m : Machine} (h : Reached since m) : Reached [] m.clear

theorem stages_succ (limit : Nat) (m : Machine) :
    m.stages (limit + 1) =
      m :: (if m.step.1 = .proceed then m.step.2.stages limit else []) := by
  unfold stages
  by_cases hproceed : m.step.1 = .proceed
  · have hstep : m.step = (.proceed, m.step.2) := Prod.ext hproceed rfl
    rw [if_pos hproceed, trace, hstep]
    rfl
  · -- a step that does not proceed is the last one
    rw [if_neg hproceed, trace]
    split
    · next next hstep => exact absurd (congrArg Prod.fst hstep) hproceed
    · rfl

/-! ## §2. Where an instruction leaves the program counter. -/

/-- The results an instruction can have on a machine whose program counter is at the next one. -/
inductive Effected (m : Machine) : Except Cause Machine → Prop
  /-- It fails, and not because its byte is mapped to no opcode. -/
  | failed {cause : Cause} (hcause : ∀ byte, cause ≠ .illegalInstruction byte) :
      Effected m (.error cause)
  /-- It is carried out and the next one follows. -/
  | next {t : Machine} (hpc : t.pc = m.pc) : Effected m (.ok t)
  /-- It is carried out and leads to an address of the code. -/
  | jumped {t : Machine} (hlow : 0 ≤ t.pc) (hhigh : t.pc < m.code.size) : Effected m (.ok t)

section Effects

variable {m : Machine}

/-- An operand that names no register is a failure of this kind. -/
theorem effected_bind_register (a : UInt8) {f : Fin registerCount → Except Cause Machine}
    (h : ∀ r, m.Effected (f r)) : m.Effected (register a >>= f) := by
  unfold register
  by_cases hlt : a.toNat < registerCount
  · rw [dif_pos hlt]
    exact h _
  · rw [dif_neg hlt]
    apply Effected.failed
    intro byte
    simp

theorem effected_jump (target : Int) : m.Effected (m.jump target) := by
  rw [jump_eq]
  by_cases hin : 0 ≤ target ∧ target < m.code.size
  · rw [if_pos hin]
    exact Effected.jumped hin.1 hin.2
  · rw [if_neg hin]
    apply Effected.failed
    intro byte
    simp

theorem effected_combine (f : Int32 → Int32 → Int32) (a b c : UInt8) :
    m.Effected (m.combine f a b c) := by
  rw [combine_eq]
  apply effected_bind_register
  intro x
  apply effected_bind_register
  intro y
  apply effected_bind_register
  intro d
  exact Effected.next rfl

theorem effected_compare (f : Int32 → Int32 → Bool) (a b : UInt8) :
    m.Effected (m.compare f a b) := by
  rw [compare_eq]
  apply effected_bind_register
  intro x
  apply effected_bind_register
  intro y
  exact Effected.next rfl

theorem effected_divide (a b c : UInt8) : m.Effected (m.divide a b c) := by
  rw [divide_eq]
  apply effected_bind_register
  intro x
  apply effected_bind_register
  intro y
  apply effected_bind_register
  intro d
  by_cases hzero : m.get y = 0
  · rw [if_pos hzero]
    apply Effected.failed
    intro byte
    simp
  · rw [if_neg hzero]
    exact Effected.next rfl

theorem effected_allocate (a : UInt8) : m.Effected (m.allocate a) := by
  rw [allocate_eq]
  apply effected_bind_register
  intro r
  by_cases hneg : m.get r < 0
  · rw [if_pos hneg]
    apply Effected.failed
    intro byte
    simp
  · rw [if_neg hneg]
    exact Effected.next rfl

theorem effected_adjust (f : Int32 → Int32) (a : UInt8) : m.Effected (m.adjust f a) := by
  rw [adjust_eq]
  apply effected_bind_register
  intro r
  exact Effected.next rfl

theorem effected_jumpBy (f : Int → Int → Int) (a : UInt8) : m.Effected (m.jumpBy f a) := by
  rw [jumpBy_eq]
  apply effected_bind_register
  intro r
  exact effected_jump _

/-- **An instruction goes on to the next one or to an address of the code, or it fails.** -/
theorem effected_effect (m : Machine) (op : Opcode) (a b c : UInt8) :
    m.Effected (m.effect op a b c) := by
  cases op with
  | hlt => exact Effected.next rfl
  | add | sub | mul => exact effected_combine _ a b c
  | div => exact effected_divide a b c
  | eq | neq => exact effected_compare _ a b
  | gt => exact effected_compare (fun x y => decide (y < x)) a b
  | lt => exact effected_compare (fun x y => decide (x < y)) a b
  | gtq => exact effected_compare (fun x y => decide (y ≤ x)) a b
  | ltq => exact effected_compare (fun x y => decide (x ≤ y)) a b
  | aloc => exact effected_allocate a
  | inc | dec => exact effected_adjust _ a
  | load =>
      rw [effect_load]
      apply effected_bind_register
      intro r
      exact Effected.next rfl
  | jmp => exact effected_jumpBy (fun _ value => value) a
  | jmpf => exact effected_jumpBy (· + ·) a
  | jmpb => exact effected_jumpBy (· - ·) a
  | jmpe =>
      rw [effect_jmpe]
      apply effected_bind_register
      intro r
      -- without the flag it is no jump
      by_cases hflag : m.flag = true
      · rw [if_pos hflag]
        exact effected_jump _
      · rw [if_neg hflag]
        exact Effected.next rfl

end Effects

/-! ## §3. The program counter and the fault. -/

/-- A fault that is about the byte at the program counter. -/
structure FaultHere (m : Machine) (f : Fault) : Prop where
  /-- Its address is the program counter, -/
  pc_eq : f.pc = m.pc
  /-- where there is a byte. -/
  pc_lt : m.pc < m.code.size
  /-- It is that of an illegal instruction exactly if the byte is mapped to no opcode. -/
  illegal_iff : ∀ byte, f.cause = .illegalInstruction byte ↔
    m.code[m.pc.toNat]? = some byte ∧ Opcode.ofByte? byte = none

/-- The program counter is in the code or at its end, and a fault is about the byte there. -/
structure Placed (m : Machine) : Prop where
  /-- It is not before the code, -/
  pc_nonneg : 0 ≤ m.pc
  /-- nor behind its end. -/
  pc_le : m.pc ≤ m.code.size
  /-- A fault is about the byte at the program counter. -/
  fault : ∀ f, m.fault = some f → m.FaultHere f

/-- A machine that starts at the beginning is placed, whatever its code. -/
theorem placed_of_start {m : Machine} (hpc : m.pc = 0) (hfault : m.fault = none) : m.Placed := by
  refine ⟨by omega, by omega, ?_⟩
  intro f hf
  rw [hfault] at hf
  exact absurd hf (by simp)

/-- More code behind does no harm, nor does any change of the registers, the memory or the count. -/
theorem Placed.extend {m t : Machine} (h : m.Placed) (hpc : t.pc = m.pc) (hfault : t.fault = m.fault)
    {code : Array UInt8} (hcode : t.code = m.code ++ code) : t.Placed := by
  have hsize : t.code.size = m.code.size + code.size := by rw [hcode, Array.size_append]
  have hlow := h.pc_nonneg
  have hhigh := h.pc_le
  refine ⟨by omega, by omega, ?_⟩
  intro f hf
  rw [hfault] at hf
  obtain ⟨heq, hlt, hillegal⟩ := h.fault f hf
  refine ⟨by omega, by omega, ?_⟩
  intro byte
  -- the byte that the fault is about is still the one at its place
  have hin : m.pc.toNat < m.code.size := by omega
  rw [hillegal, hpc, hcode, Array.getElem?_append_left hin]

/-- A byte that is mapped to no opcode is fetched from its place. -/
theorem illegal_of_fetch {m : Machine} {byte : UInt8} (h : m.fetch = .illegal byte) :
    ∃ i : Nat, m.pc = i ∧ m.code[i]? = some byte ∧ Opcode.ofByte? byte = none := by
  unfold fetch at h
  split at h
  · exact absurd h nofun
  · next i hpc =>
    split at h
    · exact absurd h nofun
    · next found hfound =>
      split at h
      · next hop =>
        obtain rfl := Fetched.illegal.inj h
        exact ⟨i, hpc, hfound, hop⟩
      · split at h
        · exact absurd h nofun
        · exact absurd h nofun

/-- A fault that an instruction leaves is about its first byte. -/
theorem placed_faultAt {m : Machine} {i : Nat} {found : UInt8} {cause : Cause} (hpc : m.pc = i)
    (hfound : m.code[i]? = some found)
    (hcause : ∀ byte, cause = .illegalInstruction byte ↔ byte = found ∧ Opcode.ofByte? byte = none) :
    (m.faultAt m.pc cause).Placed := by
  have hlt : i < m.code.size := (Array.getElem?_eq_some_iff.mp hfound).1
  refine ⟨?_, ?_, ?_⟩
  · show 0 ≤ m.pc
    omega
  · show m.pc ≤ m.code.size
    omega
  · intro f hf
    obtain rfl : (⟨m.pc, cause⟩ : Fault) = f := Option.some.inj hf
    refine ⟨rfl, ?_, ?_⟩
    · show m.pc < m.code.size
      omega
    · intro byte
      show cause = .illegalInstruction byte ↔ m.code[m.pc.toNat]? = some byte ∧ _
      rw [hcause, hpc, Int.toNat_natCast, hfound, Option.some.injEq, eq_comm]

/-- **A step keeps the program counter and the fault in place.** -/
theorem placed_step {m : Machine} (h : m.Placed) : m.step.2.Placed := by
  have hstepped := m.stepped_step
  generalize m.step = r at hstepped ⊢
  cases hstepped with
  | stuck hfault => exact h
  | exhausted hfault hfetch => exact h
  | @illegal byte hfault hfetch =>
      obtain ⟨i, hpc, hfound, hop⟩ := illegal_of_fetch hfetch
      apply placed_faultAt hpc hfound
      intro other
      rw [Cause.illegalInstruction.injEq]
      constructor
      · rintro rfl
        exact ⟨rfl, hop⟩
      · rintro ⟨rfl, -⟩
        rfl
  | @failed op a b c cause hfault hfetch heffect =>
      obtain ⟨i, found, hpc, hfound, hop, -⟩ := slot_of_fetch hfetch
      apply placed_faultAt hpc hfound
      intro other
      -- the byte is mapped, and no instruction fails for want of that
      have heffected := effected_effect { m with pc := m.pc + 4 } op a b c
      rw [heffect] at heffected
      cases heffected with
      | failed hcause =>
          refine iff_of_false (hcause other) ?_
          rintro ⟨rfl, hnone⟩
          rw [hop] at hnone
          exact absurd hnone (by simp)
  | @done op a b c next hfault hfetch heffect =>
      obtain ⟨i, found, hpc, hfound, -, -, -, hlast⟩ := slot_of_fetch hfetch
      -- all four bytes of the slot are there, so its end is in the code or at the end of it
      have hlt : i + 3 < m.code.size := (Array.getElem?_eq_some_iff.mp hlast).1
      have hcode : next.code = m.code := by rw [eq_on_of_effect heffect]; rfl
      have hnone : next.fault = none := by rw [eq_on_of_effect heffect]; exact hfault
      have hplace : 0 ≤ next.pc ∧ next.pc ≤ m.code.size := by
        have heffected := effected_effect { m with pc := m.pc + 4 } op a b c
        rw [heffect] at heffected
        cases heffected with
        | next hnext =>
            have hnext' : next.pc = m.pc + 4 := hnext
            omega
        | jumped hlow hhigh =>
            have hhigh' : next.pc < m.code.size := hhigh
            omega
      refine ⟨hplace.1, ?_, ?_⟩
      · show next.pc ≤ next.code.size
        rw [hcode]
        exact hplace.2
      · intro f hf
        have hf' : next.fault = some f := hf
        rw [hnone] at hf'
        exact absurd hf' (by simp)

/-- **So does a run.** -/
theorem placed_runFor {m : Machine} (h : m.Placed) (limit : Nat) : (m.runFor limit).2.Placed := by
  induction limit generalizing m with
  | zero => exact h
  | succ limit ih =>
      have hnext := placed_step h
      rw [runFor_succ]
      split
      · next next hstep =>
        rw [hstep] at hnext
        exact ih hnext
      · exact hnext

/-- Settings change the heap and append code, and nothing else. -/
theorem configureAll_eq (m : Machine) (settings : List Setting) :
    ∃ heap code, (m.configureAll settings).1 = { m with heap := heap, code := m.code ++ code } := by
  induction settings generalizing m with
  | nil => exact ⟨m.heap, #[], by simp [configureAll]⟩
  | cons s rest ih =>
      unfold configureAll
      cases s with
      | heapSize size =>
          by_cases hneg : size < 0
          · -- the settings that follow a refused one are not looked at
            rw [show m.configure? (.heapSize size) = none from if_pos hneg]
            exact ⟨m.heap, #[], by simp⟩
          · rw [show m.configure? (.heapSize size) = some _ from if_neg hneg]
            exact ih _
      | code bytes =>
          obtain ⟨heap, code, heq⟩ := ih (m.load bytes)
          refine ⟨heap, bytes.toArray ++ code, ?_⟩
          show ((m.load bytes).configureAll rest).1 = _
          rw [heq, code_load, Array.append_assoc]
          rfl

theorem placed_configureAll {m : Machine} (h : m.Placed) (settings : List Setting) :
    (m.configureAll settings).1.Placed := by
  obtain ⟨heap, code, heq⟩ := m.configureAll_eq settings
  rw [heq]
  exact h.extend rfl rfl rfl

/-! ## §4. The count. -/

/-- Whether the next step carries out an instruction: it proceeds, or it carries out `hlt`. -/
def carriesOut (m : Machine) : Bool := m.step.1 = .proceed || m.atHlt

/-- **A step counts exactly if it carries out an instruction.** -/
theorem count_step (m : Machine) :
    m.step.2.count = m.count + if m.carriesOut then 1 else 0 := by
  have hstepped := m.stepped_step
  unfold carriesOut atHlt
  generalize m.step = r at hstepped ⊢
  cases hstepped with
  | stuck hfault =>
      have hnone : m.fault.isNone = false := by simpa [Option.isSome_iff_ne_none] using hfault
      rw [hnone]
      rfl
  | exhausted hfault hfetch => rw [hfault, hfetch]; rfl
  | illegal hfault hfetch => rw [hfault, hfetch]; rfl
  | @failed op a b c cause hfault hfetch heffect =>
      rw [hfault, hfetch]
      cases op with
      -- `hlt` cannot fail
      | hlt => exact absurd heffect nofun
      | _ => rfl
  | @done op a b c next hfault hfetch heffect =>
      rw [hfault, hfetch]
      cases op <;> rfl

/-- **A run counts the steps in it that carry out an instruction.** -/
theorem count_runFor (m : Machine) (limit : Nat) :
    (m.runFor limit).2.count = m.count + (m.stages limit).countP carriesOut := by
  induction limit generalizing m with
  | zero => rfl
  | succ limit ih =>
      have hcount := m.count_step
      rw [runFor_succ, stages_succ, List.countP_cons]
      split
      · next next hstep =>
        rw [hstep] at hcount
        rw [hstep, if_pos rfl, ih next]
        have hcount' : next.count = m.count + if m.carriesOut then 1 else 0 := hcount
        show _ = m.count + ((next.stages limit).countP carriesOut + _)
        omega
      · next hstep =>
        have hlast : m.step.1 ≠ .proceed := fun h => hstep m.step.2 (Prod.ext h rfl)
        rw [if_neg hlast, List.countP_nil, hcount]
        omega

theorem count_configureAll (m : Machine) (settings : List Setting) :
    (m.configureAll settings).1.count = m.count := by
  obtain ⟨heap, code, heq⟩ := m.configureAll_eq settings
  rw [heq]

/-- No step both proceeds and carries out `hlt`. -/
theorem countP_carriesOut (since : List Machine) :
    since.countP carriesOut =
      since.countP (fun s => s.step.1 = .proceed) + since.countP atHlt := by
  induction since with
  | nil => rfl
  | cons s since ih =>
      have hexclusive : s.step.1 = .proceed → s.atHlt = false := by
        intro hproceed
        have hstepped := s.stepped_step
        unfold atHlt
        generalize s.step = r at hproceed hstepped
        cases hstepped with
        | stuck hfault => exact absurd hproceed nofun
        | exhausted hfault hfetch => exact absurd hproceed nofun
        | illegal hfault hfetch => exact absurd hproceed nofun
        | failed hfault hfetch heffect => exact absurd hproceed nofun
        | @done op a b c next hfault hfetch heffect =>
            rw [hfault, hfetch]
            cases op with
            | hlt => exact absurd hproceed nofun
            | _ => rfl
      rw [List.countP_cons, List.countP_cons, List.countP_cons, ih]
      unfold carriesOut
      by_cases hproceed : s.step.1 = .proceed
      · rw [hexclusive hproceed]
        simp [hproceed]
        omega
      · simp [hproceed]
        omega

/-! ## §5. Every machine reached. -/

namespace Reached

variable {since : List Machine} {m : Machine}

theorem placed (h : Reached since m) : m.Placed := by
  induction h with
  | @new settings m hnew =>
      have hplaced := placed_configureAll (placed_of_start (m := fresh) rfl rfl) settings
      rwa [hnew] at hplaced
  | step _ ih => exact placed_step ih
  | run _ _ ih => exact placed_runFor ih _
  | load _ code ih => exact ih.extend rfl rfl (code_load _ code)
  | loadImage _ img ih => exact ih.extend rfl rfl (code_load _ img.code)
  | configure _ settings ih => exact placed_configureAll ih settings
  | reset _ _ => exact placed_of_start rfl rfl
  | clear _ _ => exact placed_of_start rfl rfl

theorem count_eq (h : Reached since m) : m.count = since.countP carriesOut := by
  induction h with
  | @new settings m hnew =>
      have hcount := count_configureAll fresh settings
      rwa [hnew] at hcount
  | step _ ih =>
      rw [count_step, ih, List.countP_append, List.countP_singleton]
  | run _ _ ih => rw [count_runFor, ih, List.countP_append]
  | load _ _ ih => exact ih
  | loadImage _ _ ih => exact ih
  | configure _ settings ih => rw [count_configureAll, ih]
  | reset _ _ => rfl
  | clear _ _ => rfl

end Reached

end Machine

/-- The wordings of the five kinds of faults. -/
def Cause.kinds : List Bytes :=
  [ascii "illegal instruction", ascii "division by zero", ascii "jump target out of range",
    ascii "invalid register", ascii "negative heap allocation"]

/-- The wording of a cause ends with that of its kind. -/
theorem Cause.exists_kind (cause : Cause) : ∃ kind ∈ Cause.kinds, kind <:+ cause.message := by
  cases cause with
  | illegalInstruction byte =>
      exact ⟨ascii "illegal instruction", by decide,
        ascii "opcode " ++ decimalNat byte.toNat ++ ascii ": ", by simp [message, ascii]⟩
  | divisionByZero => exact ⟨ascii "division by zero", by decide, [], rfl⟩
  | jumpOutOfRange target size =>
      exact ⟨ascii "jump target out of range", by decide,
        ascii "target " ++ decimal target ++ ascii ", program size " ++ decimalNat size ++ ascii ": ",
        by simp [message, ascii]⟩
  | invalidRegister index =>
      exact ⟨ascii "invalid register", by decide,
        ascii "$" ++ decimalNat index.toNat ++ ascii ": ", by simp [message, ascii]⟩
  | negativeAllocation size =>
      exact ⟨ascii "negative heap allocation", by decide,
        decimal size ++ ascii " bytes: ", by simp [message, negativeAllocationText]⟩

/-- **The invariant of every machine that calls lead to.**  The program counter is in the code or at
its end.  A machine at fault stands at a byte of the code; its message names that place and ends
with one of the five kinds, and the fault is that of an illegal instruction exactly if the byte is
mapped to no opcode.  The count is the number of steps, since the machine was made or last started
over, that proceeded or carried out `hlt`. -/
theorem reached_invariant (since : List Machine) (m : Machine) (h : Machine.Reached since m) :
    (0 ≤ m.pc ∧ m.pc ≤ m.code.size) ∧
    (∀ f, m.fault = some f →
      m.pc < m.code.size ∧
      ascii "pc=" ++ decimal m.pc ++ ascii ": " <+: f.message ∧
      (∃ kind ∈ Cause.kinds, kind <:+ f.message) ∧
      ∀ byte, f.cause = .illegalInstruction byte ↔
        m.code[m.pc.toNat]? = some byte ∧ Opcode.ofByte? byte = none) ∧
    m.count = since.countP (fun s => s.step.1 = .proceed) + since.countP Machine.atHlt := by
  refine ⟨⟨h.placed.pc_nonneg, h.placed.pc_le⟩, ?_, ?_⟩
  · intro f hf
    obtain ⟨hpc, hlt, hillegal⟩ := h.placed.fault f hf
    obtain ⟨kind, hkind, hsuffix⟩ := f.cause.exists_kind
    refine ⟨hlt, ?_, ⟨kind, hkind, ?_⟩, hillegal⟩
    · rw [← hpc]
      exact List.prefix_append _ _
    · exact hsuffix.trans (List.suffix_append _ _)
  · rw [h.count_eq, Machine.countP_carriesOut]

/-- A machine with a heap and one instruction that puts 7 into a register. -/
def reachableStart : Machine := (Machine.fresh.configureAll [.heapSize 2, .code [1, 1, 0, 7]]).1

/-- The same after a step and a new start, with a jump to that register behind: address 7 is the last
byte of the jump. -/
def reachableMiddle : Machine := reachableStart.step.2.reset.load [6, 1, 0, 255]

/-- The machine after it has run into that byte, with more code behind. -/
def reachableEnd : Machine := (reachableMiddle.runFor 5).2.loadImage ⟨[9], [0]⟩

theorem reached_invariant_sample :
    Machine.Reached (reachableMiddle.stages 5) reachableEnd ∧
    reachableEnd.fault = some ⟨7, .illegalInstruction 255⟩ ∧
    (7 ≤ reachableEnd.code.size ∧ reachableEnd.code[7]? = some 255) ∧
    ascii "pc=7: " <+: (Fault.message ⟨7, .illegalInstruction 255⟩) ∧
    reachableEnd.count = 2 := by
  have hstart : Machine.Reached [] reachableStart := .new rfl
  have hmiddle : Machine.Reached [] reachableMiddle := .load (.reset (.step hstart)) _
  have hends : (reachableMiddle.runFor 5).1 ≠ .proceed := by decide
  have hrun : Machine.Reached (reachableMiddle.stages 5) (reachableMiddle.runFor 5).2 :=
    .run hmiddle hends
  have hend : Machine.Reached (reachableMiddle.stages 5) reachableEnd := .loadImage hrun _
  have hfault : reachableEnd.fault = some ⟨7, .illegalInstruction 255⟩ := by decide
  obtain ⟨⟨-, hle⟩, hfaulty, hcount⟩ := reached_invariant _ _ hend
  obtain ⟨-, hmessage, -, hillegal⟩ := hfaulty _ hfault
  have hpc : reachableEnd.pc = 7 := by decide
  rw [hpc] at hle hmessage hillegal
  refine ⟨hend, hfault, ⟨by omega, ((hillegal 255).mp rfl).1⟩, hmessage, ?_⟩
  -- the load and the jump proceeded, and the step before the new start is forgotten
  rw [hcount]
  decide

end Quartet
