/-
  Quartet.Proofs.Machine.Loading
  ──────────────────────────────
  **LOADING CODE PIECE BY PIECE IS LOADING IT AT ONCE.**

  Code may be appended while the machine runs.  An instruction that was carried out is carried out in
  the same way if the code that comes later is already there; a step that found too few bytes did
  nothing at all.  So the steps that count can be taken after everything has been loaded:

    • `Machine.step_load` — what loading more code first does to one step,
    • `Machine.Executes` — a number of steps that each carry out an instruction,
    • `Machine.executes_callAll` — loads and steps in any order come down to one load and such steps.
-/
import Quartet.Proofs.Machine.Faults

namespace Quartet

namespace Machine

/-! ## §1. One step. -/

/-- An instruction is fetched only if its four bytes are there and the first is mapped. -/
theorem slot_of_fetch {m : Machine} {op : Opcode} {a b c : UInt8} (h : m.fetch = .slot op a b c) :
    ∃ (i : Nat) (byte : UInt8), m.pc = i ∧ m.code[i]? = some byte ∧ Opcode.ofByte? byte = some op ∧
      m.code[i + 1]? = some a ∧ m.code[i + 2]? = some b ∧ m.code[i + 3]? = some c := by
  -- a fetch ends early without a place, a byte, an operation or operands
  unfold fetch at h
  split at h
  · exact absurd h nofun
  · next i hpc =>
    split at h
    · exact absurd h nofun
    · next byte hbyte =>
      split at h
      · exact absurd h nofun
      · next op' hop =>
        split at h
        · next a' b' c' ha hb hc =>
          obtain ⟨rfl, rfl, rfl, rfl⟩ := Fetched.slot.inj h
          exact ⟨i, byte, hpc, hbyte, hop, ha, hb, hc⟩
        · exact absurd h nofun

/-- More code behind an instruction does not change what is fetched. -/
theorem fetch_load {m : Machine} {op : Opcode} {a b c : UInt8} (h : m.fetch = .slot op a b c)
    (code : Bytes) : (m.load code).fetch = .slot op a b c := by
  obtain ⟨i, byte, hpc, hbyte, hop, ha, hb, hc⟩ := slot_of_fetch h
  -- a byte that was there is still at its place
  have hkept : ∀ {j : Nat} {x : UInt8}, m.code[j]? = some x → (m.load code).code[j]? = some x := by
    intro j x hj
    rw [code_load, Array.getElem?_append_left (Array.getElem?_eq_some_iff.mp hj).1]
    exact hj
  unfold fetch
  rw [show (m.load code).pc = Int.ofNat i from hpc]
  simp only [hkept hbyte, hop, hkept ha, hkept hb, hkept hc]

/-- A step at an instruction that is carried out. -/
theorem step_of_effect {m next : Machine} {op : Opcode} {a b c : UInt8} (hfault : m.fault = none)
    (hfetch : m.fetch = .slot op a b c)
    (heffect : { m with pc := m.pc + 4 }.effect op a b c = .ok next) :
    m.step = (if op = .hlt then .halted else .proceed, { next with count := m.count + 1 }) := by
  have h := m.stepped_step
  generalize m.step = r at h ⊢
  -- any other way for the step to go is against what is known of it
  cases h with
  | stuck hstuck => rw [hfault] at hstuck; exact absurd hstuck nofun
  | exhausted _ hfetch' => exact absurd (hfetch.symm.trans hfetch') nofun
  | illegal _ hfetch' => exact absurd (hfetch.symm.trans hfetch') nofun
  | failed _ hfetch' heffect' =>
      obtain ⟨rfl, rfl, rfl, rfl⟩ := Fetched.slot.inj (hfetch.symm.trans hfetch')
      exact absurd (heffect.symm.trans heffect') nofun
  | done _ hfetch' heffect' =>
      obtain ⟨rfl, rfl, rfl, rfl⟩ := Fetched.slot.inj (hfetch.symm.trans hfetch')
      rw [Except.ok.inj (heffect.symm.trans heffect')]

/-- **A step that does not fault** either finds too few bytes and does nothing, or carries out an
instruction, and then it does the same with more code behind it. -/
theorem step_load {m t : Machine} {g : Signal} (h : m.step = (g, t)) (hg : g ≠ .faulted) :
    t = m ∨ t.count = m.count + 1 ∧ ∀ code, (m.load code).step = (g, t.load code) := by
  cases stepped_of_eq h with
  | stuck hfault => exact absurd rfl hg
  | exhausted hfault hfetch => exact Or.inl rfl
  | illegal hfault hfetch => exact absurd rfl hg
  | failed hfault hfetch heffect => exact absurd rfl hg
  | @done op a b c next hfault hfetch heffect =>
      refine Or.inr ⟨rfl, ?_⟩
      intro code
      have hsize : m.code.size ≤ (m.load code).code.size := by simp
      have hlonger : { m.load code with pc := m.pc + 4 }.effect op a b c
          = .ok (next.on (m.load code)) := effect_on heffect hsize
      -- the instruction left the code as it was, so loading commutes with it
      have hnext : next.on (m.load code) = next.load code := by
        rw [eq_on_of_effect heffect]
        rfl
      rw [hnext] at hlonger
      exact step_of_effect (m := m.load code) hfault (fetch_load hfetch code) hlonger

/-! ## §2. Steps that each carry out an instruction. -/

/-- From `m`, a number of steps lead to a machine, none faults and each carries out an
instruction. -/
inductive Executes (m : Machine) : Nat → Machine → Prop
  | refl : Executes m 0 m
  | step {n : Nat} {t u : Machine} {g : Signal} (h : Executes m n t) (hstep : t.step = (g, u))
      (hg : g ≠ .faulted) (hcount : u.count = t.count + 1) : Executes m (n + 1) u

namespace Executes

variable {m t : Machine} {n : Nat}

theorem count_eq (h : m.Executes n t) : t.count = m.count + n := by
  induction h with
  | refl => rfl
  | step _ _ _ hcount ih => rw [hcount, ih, Nat.add_assoc]

/-- They can also be taken with more code loaded first. -/
theorem load (h : m.Executes n t) (code : Bytes) : (m.load code).Executes n (t.load code) := by
  induction h with
  | refl => exact Executes.refl
  | @step n t u g _ hstep hg hcount ih =>
      rcases step_load hstep hg with rfl | ⟨-, hload⟩
      · -- a step that does nothing does not count
        omega
      · exact Executes.step ih (hload code) hg hcount

/-- They are what as many calls of a step do. -/
theorem callAll_eq (h : m.Executes n t) :
    (m.callAll (List.replicate n .step)).2 = t ∧
      .faulted ∉ (m.callAll (List.replicate n .step)).1 := by
  induction h with
  | refl => exact ⟨rfl, List.not_mem_nil⟩
  | @step n t u g _ hstep hg _ ih =>
      obtain ⟨hstate, hsignals⟩ := ih
      rw [List.replicate_succ', callAll_append, hstate]
      show t.step.2 = u ∧ .faulted ∉ _ ++ [t.step.1]
      rw [hstep]
      refine ⟨rfl, ?_⟩
      intro hmem
      rcases List.mem_append.mp hmem with hmem | hmem
      · exact hsignals hmem
      · exact hg (List.mem_singleton.mp hmem).symm

end Executes

/-! ## §3. Loads and steps in any order. -/

/-- Whether a call is a load or a step. -/
def Call.feeds : Call → Bool
  | .load _ | .step => true
  | _ => false

theorem Call.eq_of_feeds {c : Call} (h : c.feeds) : c = .step ∨ ∃ code, c = .load code := by
  cases c with
  | step => exact Or.inl rfl
  | load code => exact Or.inr ⟨code, rfl⟩
  | _ => exact absurd h nofun

theorem Call.goesOn_of_feeds {c : Call} (h : c.feeds) : c.goesOn := by
  rcases eq_of_feeds h with rfl | ⟨code, rfl⟩ <;> rfl

/-- If the machine is not at fault after loads and steps, no step among them has faulted: a fault
would have stayed. -/
theorem faulted_not_mem_callAll {m : Machine} {cs : List Call} (hcs : ∀ c ∈ cs, c.feeds)
    (hfault : (m.callAll cs).2.fault = none) : .faulted ∉ (m.callAll cs).1 := by
  induction cs generalizing m with
  | nil => exact List.not_mem_nil
  | cons c cs ih =>
      have hrest : ∀ d ∈ cs, d.feeds := fun d hd => hcs d (List.mem_cons_of_mem _ hd)
      rcases Call.eq_of_feeds (hcs c List.mem_cons_self) with rfl | ⟨code, rfl⟩
      · show .faulted ∉ m.step.1 :: (m.step.2.callAll cs).1
        rw [List.mem_cons]
        rintro (hstep | hmem)
        · -- the fault of this step would still be there in the end
          have hstuck := (step_faulted_iff m).mp hstep.symm
          obtain ⟨-, data, hstate⟩ :=
            callAll_of_fault hstuck fun d hd => Call.goesOn_of_feeds (hrest d hd)
          have hnone : (m.step.2.callAll cs).2.fault = none := hfault
          rw [hstate] at hnone
          change m.step.2.fault = none at hnone
          rw [hnone] at hstuck
          exact absurd hstuck nofun
        · exact ih hrest hfault hmem
      · exact ih hrest hfault

/-- **The invariant of loading while running.**  Whatever loads and steps follow, the machine is where
the steps that counted lead from with all the code loaded first. -/
theorem Executes.callAll {s t : Machine} {code : Bytes} {n : Nat} (h : (s.load code).Executes n t)
    {cs : List Call} (hcs : ∀ c ∈ cs, c.feeds) (hok : .faulted ∉ (t.callAll cs).1) :
    ∃ k, (s.load (code ++ cs.flatMap Call.bytes)).Executes k (t.callAll cs).2 := by
  induction cs generalizing t code n with
  | nil =>
      rw [List.flatMap_nil, List.append_nil]
      exact ⟨n, h⟩
  | cons c cs ih =>
      have hrest : ∀ d ∈ cs, d.feeds := fun d hd => hcs d (List.mem_cons_of_mem _ hd)
      rw [List.flatMap_cons, ← List.append_assoc]
      rcases Call.eq_of_feeds (hcs c List.mem_cons_self) with rfl | ⟨chunk, rfl⟩
      · have hsignals : .faulted ∉ t.step.1 :: (t.step.2.callAll cs).1 := hok
        have hg : t.step.1 ≠ .faulted := fun hg => hsignals (hg ▸ List.mem_cons_self)
        have hok' : .faulted ∉ (t.step.2.callAll cs).1 :=
          fun hmem => hsignals (List.mem_cons_of_mem _ hmem)
        rw [show code ++ Call.step.bytes = code from List.append_nil code]
        rcases step_load (g := t.step.1) rfl hg with hsame | ⟨hcount, -⟩
        · -- a step that found too few bytes is left out
          exact ih (t := t.step.2) (hsame ▸ h) hrest hok'
        · exact ih (Executes.step h rfl hg hcount) hrest hok'
      · -- the new code could have been there before the steps taken so far
        have hload := h.load chunk
        rw [← load_append] at hload
        exact ih hload hrest hok

/-- Loads and steps from a machine on come down to one load and steps that count. -/
theorem executes_callAll {s : Machine} {cs : List Call} (hcs : ∀ c ∈ cs, c.feeds)
    (hok : .faulted ∉ (s.callAll cs).1) :
    ∃ k, (s.load (cs.flatMap Call.bytes)).Executes k (s.callAll cs).2 := by
  have hstart : (s.load []).Executes 0 s := by
    rw [load_nil]
    exact Executes.refl
  exact hstart.callAll hcs hok

end Machine

/-- **Loading code piecemeal equals loading it up front.**  Take any loads and steps, in any order and
with the code cut anywhere, of which no step faults.  They lead to the same machine as loading all
the code first and then taking as many steps as instructions were counted, and none of these steps
faults either. -/
theorem callAll_eq_load_then_steps (s : Machine) (cs : List Machine.Call) (hcs : ∀ c ∈ cs, c.feeds)
    (hok : .faulted ∉ (s.callAll cs).1) :
    s.count ≤ (s.callAll cs).2.count ∧
    ((s.load (cs.flatMap Machine.Call.bytes)).callAll
      (List.replicate ((s.callAll cs).2.count - s.count) .step)).2 = (s.callAll cs).2 ∧
    .faulted ∉ ((s.load (cs.flatMap Machine.Call.bytes)).callAll
      (List.replicate ((s.callAll cs).2.count - s.count) .step)).1 := by
  obtain ⟨k, hexec⟩ := Machine.executes_callAll hcs hok
  have hcount : (s.callAll cs).2.count = s.count + k := hexec.count_eq
  have hk : (s.callAll cs).2.count - s.count = k := by omega
  rw [hk]
  exact ⟨by omega, hexec.callAll_eq⟩

/-- An instruction in two parts, a stop whose last byte comes later, and a jump back to the stop. -/
def loadingSample : List Machine.Call :=
  [.load [1, 1], .step, .load [0, 4, 0, 0, 0], .step, .step, .load [0, 6, 1, 0, 0], .step, .step,
    .step]

theorem callAll_eq_load_then_steps_sample :
    (Machine.fresh.callAll loadingSample).1 =
      [.halted, .proceed, .halted, .halted, .proceed, .halted] ∧
    (Machine.fresh.callAll loadingSample).2.count = 4 ∧
    ((Machine.fresh.load [1, 1, 0, 4, 0, 0, 0, 0, 6, 1, 0, 0]).callAll
      (List.replicate 4 .step)).2 = (Machine.fresh.callAll loadingSample).2 := by
  have hsignals : (Machine.fresh.callAll loadingSample).1 =
      [.halted, .proceed, .halted, .halted, .proceed, .halted] := by decide
  have hcount : (Machine.fresh.callAll loadingSample).2.count = 4 := by decide
  obtain ⟨-, hstate, -⟩ := callAll_eq_load_then_steps Machine.fresh loadingSample (by decide)
    (by rw [hsignals]; decide)
  rw [hcount] at hstate
  exact ⟨hsignals, hcount, hstate⟩

end Quartet
