/-
  Quartet.Proofs.Machine.Division
  ───────────────────────────────
  **THE DIVISION LAW.**

  A division cuts its quotient off toward zero and keeps the remainder beside the registers, as bits
  without a sign.  One quotient does not fit into 32 bits, and the quotient may go to a register that
  held the dividend or the divisor.  The law of division over the integers holds all the same:

    • `tmod_law` — the remainder of the quotient that is cut off toward zero,
    • `Machine.step_of_divide` — all that a step does at a division,
    • `division_law` — the law for the quotient and the remainder that the machine keeps,
    • `not_division_at_fault` — a machine that is at fault divides no more.
-/
import Quartet.Proofs.Machine.Ownership

namespace Quartet

/-! ## §1. Integers. -/

/-- The remainder of a quotient that is cut off toward zero is smaller than the divisor, and it is
zero or has the sign of the dividend. -/
theorem tmod_law (x : Int) {y : Int} (hy : y ≠ 0) :
    x.tmod y = x - x.tdiv y * y ∧ (x.tmod y).natAbs < y.natAbs ∧
      (x.tmod y = 0 ∨ (x.tmod y).sign = x.sign) := by
  refine ⟨?_, ?_, ?_⟩
  · rw [Int.tmod_def, Int.mul_comm]
  · rw [Int.natAbs_tmod]
    exact Nat.mod_lt _ (Int.natAbs_pos.mpr hy)
  · rw [← Int.sign_eq_zero_iff_zero, Int.sign_tmod]
    by_cases hdvd : y ∣ x
    · rw [if_pos hdvd]
      exact Or.inl rfl
    · rw [if_neg hdvd]
      exact Or.inr rfl

/-- A quotient that is reduced to 32 bits still belongs to its remainder, modulo `2 ^ 32`. -/
theorem bmod_tdiv_mul_add_tmod (x y : Int) :
    ((x.tdiv y).bmod 4294967296 * y + x.tmod y) % 4294967296 = x % 4294967296 := by
  have hreduced : (x.tdiv y).bmod 4294967296 % 4294967296 = x.tdiv y % 4294967296 := Int.bmod_emod
  calc ((x.tdiv y).bmod 4294967296 * y + x.tmod y) % 4294967296
      = (x.tdiv y * y + x.tmod y) % 4294967296 := by
        rw [Int.add_emod, Int.mul_emod, hreduced, ← Int.mul_emod, ← Int.add_emod]
    _ = x % 4294967296 := by
        rw [Int.add_comm, Int.tmod_add_tdiv_mul]

namespace Machine

/-! ## §2. One step. -/

/-- The number of a register, as an operand. -/
def operand (r : Fin registerCount) : UInt8 := UInt8.ofNat r.val

theorem register_operand (r : Fin registerCount) : register (operand r) = .ok r := by
  have hbyte : (operand r).toNat = r.val :=
    UInt8.toNat_ofNat_of_lt' (show r.val < 256 from Nat.lt_trans r.isLt (by decide))
  unfold register
  rw [dif_pos (show (operand r).toNat < registerCount by rw [hbyte]; exact r.isLt)]
  exact congrArg Except.ok (Fin.ext hbyte)

theorem get_set_self (m : Machine) (r : Fin registerCount) (v : Int32) : (m.set r v).get r = v :=
  Vector.getElem_set_self r.isLt

/-- **All that a step does at a division**: both results are those of the values before the step, even
if the quotient goes to the register of one of them. -/
theorem step_of_divide {m : Machine} {a b d : Fin registerCount}
    (h : m.AboutTo .div (operand a) (operand b) (operand d)) (hb : m.value b ≠ 0) :
    m.step = (.proceed,
      { m.set d (m.get a / m.get b) with
        pc := m.pc + 4, remainder := (m.get a % m.get b).toUInt32, count := m.count + 1 }) := by
  have hzero : m.get b ≠ 0 := by
    intro hget
    apply hb
    show (m.get b).toInt = 0
    rw [hget]
    rfl
  have heffect : { m with pc := m.pc + 4 }.effect .div (operand a) (operand b) (operand d) =
      .ok { { m with pc := m.pc + 4 }.set d (m.get a / m.get b) with
        remainder := (m.get a % m.get b).toUInt32 } := by
    show { m with pc := m.pc + 4 }.divide (operand a) (operand b) (operand d) = _
    rw [divide_eq, register_operand, register_operand, register_operand]
    exact if_neg hzero
  exact step_of_effect h.fault (fetch_eq_slot_iff.mpr h.slot) heffect

end Machine

/-- **The division law**, for any values and with any of the three registers the same.  If the machine
is not at fault and the divisor is not zero, the step proceeds.  It puts the quotient, cut off toward
zero and reduced to 32 bits, into its register and changes no other; the remainder, read with its
sign, is the one that belongs to this quotient.  Dividing -2 ^ 31 by -1 gives -2 ^ 31. -/
theorem division_law (m : Machine) (a b d : Fin registerCount) (hfault : m.fault = none)
    (hslot : m.HasSlot .div (Machine.operand a) (Machine.operand b) (Machine.operand d))
    (hb : m.value b ≠ 0) :
    ∃ q r : Int, q = (m.value a).tdiv (m.value b) ∧ r = m.value a - q * m.value b ∧
      m.step.1 = .proceed ∧
      m.step.2.get d = Int32.ofInt q ∧
      (m.value a = -2147483648 → m.value b = -1 → m.step.2.value d = -2147483648) ∧
      m.step.2.remainder.toInt32.toInt = r ∧
      r.natAbs < (m.value b).natAbs ∧ (r = 0 ∨ r.sign = (m.value a).sign) ∧
      (m.step.2.value d * m.value b + r) % 4294967296 = m.value a % 4294967296 ∧
      ∀ i, i ≠ d → m.step.2.get i = m.get i := by
  have hstep := Machine.step_of_divide ⟨hfault, hslot⟩ hb
  obtain ⟨hremainder, hsmall, hsign⟩ := tmod_law (m.value a) hb
  have hget : m.step.2.get d = m.get a / m.get b := by
    rw [hstep]
    exact m.get_set_self d _
  have hvalue : m.step.2.value d = ((m.value a).tdiv (m.value b)).bmod 4294967296 := by
    show (m.step.2.get d).toInt = _
    rw [hget, Int32.toInt_div]
    rfl
  refine ⟨(m.value a).tdiv (m.value b), (m.value a).tmod (m.value b), rfl, hremainder, ?_, ?_, ?_,
    ?_, hsmall, hsign, ?_, ?_⟩
  · rw [hstep]
  · -- the value of the register is the quotient reduced to 32 bits
    apply Int32.toInt_inj.mp
    rw [Int32.toInt_ofInt]
    exact hvalue
  · intro hx hy
    rw [hvalue, hx, hy]
    decide
  · rw [hstep]
    show (m.get a % m.get b).toUInt32.toInt32.toInt = _
    rw [Int32.toInt32_toUInt32, Int32.toInt_mod]
    rfl
  · rw [hvalue]
    exact bmod_tdiv_mul_add_tmod _ _
  · intro i hi
    rw [hstep]
    exact m.get_set_of_ne hi _

/-- A machine about to divide register 10 by register 11; the quotient goes to the divisor. -/
def divisionSample (x y : Int32) : Machine :=
  { Machine.fresh.load [5, 10, 11, 11] with
    regs := (Vector.replicate registerCount 0).set 10 x |>.set 11 y, remainder := 8 }

theorem division_law_sample :
    (∀ x y, (divisionSample x y).fault = none ∧
      (divisionSample x y).HasSlot .div (Machine.operand ⟨10, by decide⟩)
        (Machine.operand ⟨11, by decide⟩) (Machine.operand ⟨11, by decide⟩)) ∧
    ((divisionSample (-7) 3).step.1 = .proceed ∧
      (divisionSample (-7) 3).step.2.get ⟨11, by decide⟩ = -2 ∧
      (divisionSample (-7) 3).step.2.remainder.toInt32.toInt = -1) ∧
    ((divisionSample (-2147483648) (-1)).step.2.value ⟨11, by decide⟩ = -2147483648 ∧
      (divisionSample (-2147483648) (-1)).step.2.remainder.toInt32.toInt = 0) := by
  have hslot : ∀ x y, (divisionSample x y).HasSlot .div (Machine.operand ⟨10, by decide⟩)
      (Machine.operand ⟨11, by decide⟩) (Machine.operand ⟨11, by decide⟩) :=
    fun x y => ⟨0, rfl, rfl, rfl, rfl, rfl⟩
  obtain ⟨q, r, hq, hr, hsignal, hquotient, -, hremainder, -⟩ :=
    division_law (divisionSample (-7) 3) _ _ _ rfl (hslot _ _) (by decide)
  obtain ⟨q', r', hq', hr', -, -, hleast, hremainder', -⟩ :=
    division_law (divisionSample (-2147483648) (-1)) _ _ _ rfl (hslot _ _) (by decide)
  refine ⟨fun x y => ⟨rfl, hslot x y⟩, ⟨hsignal, ?_, ?_⟩, hleast (by decide) (by decide), ?_⟩
  · rw [hquotient, hq]
    decide
  · rw [hremainder, hr, hq]
    decide
  · rw [hremainder', hr', hq']
    decide

/-- A machine that has counted register 0 up to one and divided it by itself, and was then at fault at
a byte that is no opcode; its program counter is back at the division. -/
def faultedDivision : Machine :=
  { ((Machine.fresh.load [17, 0, 0, 0, 5, 0, 0, 0, 255]).callAll [.step, .step, .step]).2 with
    pc := 4 }

/-- A divisor that is not zero is not enough for the step to proceed: the machine may be at fault. -/
theorem not_division_at_fault :
    ¬∀ (m : Machine) (a b d : Fin registerCount),
      m.HasSlot .div (Machine.operand a) (Machine.operand b) (Machine.operand d) →
      m.value b ≠ 0 → m.step.1 = .proceed := by
  intro hall
  have hslot : faultedDivision.HasSlot .div (Machine.operand ⟨0, by decide⟩)
      (Machine.operand ⟨0, by decide⟩) (Machine.operand ⟨0, by decide⟩) :=
    ⟨4, rfl, rfl, rfl, rfl, rfl⟩
  have hfaulted : faultedDivision.step.1 = .faulted := by decide
  have hproceed := hall faultedDivision _ _ _ hslot (by decide)
  rw [hfaulted] at hproceed
  exact absurd hproceed (by decide)

end Quartet
