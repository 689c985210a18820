/-
  Quartet.Proofs.Assembly.LoadedLabels
  ────────────────────────────────────
  **WHAT LOADING A LABEL PUTS INTO A REGISTER.**

  A reference to a label takes one byte of a slot and a number takes two, the higher one first.  An
  instruction that loads a register reads two bytes whatever stands in the source.  So a reference is
  read as the higher byte, and the zero that fills the slot up as the lower one:

    • `Program.Realises.hasSlot` — the slot of an instruction is where the records before it end,
    • `Machine.step_of_load` — all that a step does at a load,
    • `load_of_label` — a load of a label puts 256 times its offset into the register, a load of a
      number the number,
    • `not_load_of_offset` — it is not the offset that is loaded.
-/
import Quartet.Proofs.Assembly.Reassembly
import Quartet.Proofs.Assembly.Strings
import Quartet.Proofs.Machine.Division

namespace Quartet

/-! ## §1. Where the slot of an instruction is. -/

namespace Program

/-- Records that are not laid out are no instructions. -/
theorem instructions_statements (p : Program) :
    instructions (p.filter Record.isStatement) = p.instructions := by
  unfold instructions
  rw [List.filter_filter]
  apply List.filter_congr
  intro r _
  unfold Record.isStatement
  cases r.isOperation <;> rfl

/-- The code of some records takes four bytes for each instruction. -/
theorem length_flatMap_slotImage {p : Program} {rs : List Record}
    (hlength : ∀ r ∈ rs, (p.slotImage r).length = 4) :
    (rs.flatMap p.slotImage).length = 4 * rs.length := by
  rw [List.length_flatMap, List.map_congr_left hlength, List.map_const', List.sum_replicate_nat,
      Nat.mul_comm]

/-- **The slot of an instruction is where the records before it end.** -/
theorem Realises.hasSlot {p : Program} {img : Image} {table : SymbolTable}
    (hreal : p.Realises img table) {before after : Program} {r : Record}
    (hsplit : p = before ++ r :: after) {op : Opcode} (hhead : r.head = .op op.toByte)
    {a b c : UInt8} (hargs : p.argumentBytes r.operands = [a, b, c]) {m : Machine}
    (hcode : img.code <+: m.code.toList) (hpc : m.pc = 4 * before.instructions.length) :
    m.HasSlot op a b c := by
  have hop : r.isOperation = true := by simp [Record.isOperation, hhead]
  have hinstructions : p.instructions = before.instructions ++ r :: after.instructions := by
    rw [hsplit, instructions_append]
    unfold instructions
    rw [List.filter_cons_of_pos hop]
  have hslot : p.slotImage r = [op.toByte, a, b, c] := by
    rw [slotImage_eq_cons hhead, hargs]
  -- the code is cut before and behind the slot
  obtain ⟨more, hmore⟩ := hcode
  have hbytes : m.code.toList = before.instructions.flatMap p.slotImage ++
      ([op.toByte, a, b, c] ++ (after.instructions.flatMap p.slotImage ++ more)) := by
    rw [← hmore, hreal.code, hinstructions, List.flatMap_append, List.flatMap_cons, hslot,
        List.append_assoc, List.append_assoc]
  have hbefore : (before.instructions.flatMap p.slotImage).length =
      4 * before.instructions.length := by
    apply length_flatMap_slotImage
    intro s hs
    apply hreal.length
    rw [hinstructions]
    exact List.mem_append_left _ hs
  have hbyte : ∀ j, j < 4 →
      m.code[4 * before.instructions.length + j]? = [op.toByte, a, b, c][j]? := by
    intro j hj
    rw [← Array.getElem?_toList, hbytes, List.getElem?_append_right (by omega), hbefore,
        Nat.add_sub_cancel_left, List.getElem?_append_left hj]
  refine ⟨4 * before.instructions.length, ?_, hbyte 0 (by omega), hbyte 1 (by omega),
    hbyte 2 (by omega), hbyte 3 (by omega)⟩
  rw [hpc]
  omega

end Program

/-! ## §2. One load. -/

/-- **All that a step does at a load**: the two bytes are put together, the higher one first. -/
theorem Machine.step_of_load {m : Machine} {a b c : UInt8} {i : Fin registerCount}
    (h : m.AboutTo .load a b c) (ha : register a = .ok i) :
    m.step = m.carryOut (m.pc + 4) (.assign i (256 * b.toNat + c.toNat)) := by
  have heffect : { m with pc := m.pc + 4 }.effect .load a b c =
      .ok ({ m with pc := m.pc + 4 }.set i (word b c)) := by
    rw [effect_load, ha]
    rfl
  have hword : word b c = Int32.ofInt (256 * b.toNat + c.toNat) := by
    apply Int32.toInt_inj.mp
    have hb := b.toNat_lt
    have hc := c.toNat_lt
    rw [toInt_word, Int32.toInt_ofInt_of_le (by omega) (by omega)]
    omega
  rw [step_of_effect h.fault (fetch_eq_slot_iff.mpr h.slot) heffect, hword]
  rfl

/-- The value of a register into which a number of sixteen bits is put. -/
theorem Machine.value_carryOut_assign (m : Machine) (next : Int) (i : Fin registerCount) {v : Int}
    (hlow : 0 ≤ v) (hhigh : v ≤ 65535) : (m.carryOut next (.assign i v)).2.value i = v := by
  show (((m.goneOn next).set i (Int32.ofInt v)).get i).toInt = v
  rw [get_set_self, Int32.toInt_ofInt_of_le (by omega) (by omega)]

/-! ## §3. Loads in the source. -/

namespace Program.Realises

variable {p : Program} {img : Image} {table : SymbolTable} (hreal : p.Realises img table)
  {r : Record} (hr : r ∈ p.instructions) {x : UInt8}
include hreal hr

/-- The register of an instruction that is encoded is there. -/
theorem exists_register (hx : .register x ∈ r.operands) :
    ∃ i : Fin registerCount, i.val = x.toNat ∧ Machine.register x = .ok i := by
  obtain ⟨byte, bs, -, hops⟩ := hreal.encoded r hr
  have hlt : x.toNat < registerCount := register_lt_of_encoded hops hx
  exact ⟨⟨x.toNat, hlt⟩, rfl, dif_pos hlt⟩

/-- **A reference is followed by a zero** where a number has its lower byte. -/
theorem argumentBytes_reference {name : Bytes}
    (hops : r.operands = [.register x, .reference name]) :
    ∃ s, table.lookup? name = some s ∧ p.argumentBytes r.operands = [x, s.offset, 0] := by
  obtain ⟨byte, bs, -, hbytes⟩ := hreal.encoded r hr
  obtain ⟨these, hthese⟩ := operandBytes_of_mem hbytes (t := .reference name) (by simp [hops])
  -- the label is declared, or else the reference had not been encoded
  cases hlookup : table.lookup? name with
  | none =>
      simp only [operandBytes, hlookup] at hthese
      exact absurd hthese (by simp)
  | some s =>
      have hoffset : p.offsetOf? name = some s.offset.toNat := by
        rw [offsetOf?_eq_lookup? hreal.labels, hlookup]
        rfl
      refine ⟨s, rfl, ?_⟩
      rw [hops]
      simp [argumentBytes, operandImage, hoffset]

end Program.Realises

/-- The bytes of a register and a number fill the slot. -/
theorem Program.argumentBytes_immediate (p : Program) (x : UInt8) (n : Int32) :
    p.argumentBytes [.register x, .immediate n] =
      [x, UInt8.ofNat (n.toInt / 256 % 256).toNat, UInt8.ofNat (n.toInt % 256).toNat] :=
  rfl

/-- Every assembled program is realised, less the records that are not laid out. -/
theorem Program.exists_realises {p : Program} {img : Image} (h : p.assemble.result = .ok img) :
    ∃ table, p.assemble.symbols = some table ∧
      Program.Realises (p.filter Record.isStatement) img table := by
  rw [← p.assemble_statements] at h ⊢
  have hp : ∀ r ∈ p.filter Record.isStatement, r.isOperation ∨ r.isDirective := by
    intro r hr
    exact Record.isStatement_iff.mp (List.mem_filter.mp hr).2
  obtain ⟨table, hreal⟩ := Program.realises_of_assemble hp h
  exact ⟨table, hreal.symbols, hreal⟩

/-- **What loading a label puts into a register.**  On a machine that holds the code of an assembled
program, at the address of an instruction that loads a label, a step puts 256 times the offset of the
label into the register and goes on with the next instruction; nothing else changes.  Where a number
from 0 to 65535 is loaded instead, the register becomes that number. -/
theorem load_of_label (p : Program) (img : Image) (h : p.assemble.result = .ok img)
    (before after : Program) (r : Record) (hsplit : p = before ++ r :: after)
    (hhead : r.head = .op Opcode.load.toByte) (m : Machine) (hcode : img.code <+: m.code.toList)
    (hfault : m.fault = none) (hpc : m.pc = 4 * before.instructions.length) :
    (∀ x name, r.operands = [.register x, .reference name] →
      ∃ table s i, p.assemble.symbols = some table ∧ table.lookup? name = some s ∧
        i.val = x.toNat ∧
        m.step = m.carryOut (4 * (before.instructions.length + 1)) (.assign i (256 * s.offset.toNat)) ∧
        m.step.2.value i = 256 * s.offset.toNat) ∧
    ∀ x n, r.operands = [.register x, .immediate n] → 0 ≤ n.toInt → n.toInt ≤ 65535 →
      ∃ i, i.val = x.toNat ∧
        m.step = m.carryOut (4 * (before.instructions.length + 1)) (.assign i n.toInt) ∧
        m.step.2.value i = n.toInt := by
  obtain ⟨table, hsymbols, hreal⟩ := Program.exists_realises h
  have hop : r.isOperation = true := by simp [Record.isOperation, hhead]
  have hsplit' : p.filter Record.isStatement =
      before.filter Record.isStatement ++ r :: after.filter Record.isStatement := by
    rw [hsplit, List.filter_append, List.filter_cons_of_pos (by simp [Record.isStatement, hop])]
  have hmem : r ∈ Program.instructions (p.filter Record.isStatement) := by
    rw [Program.instructions_statements, hsplit]
    exact List.mem_filter.mpr ⟨by simp, hop⟩
  have hpc' : m.pc = 4 * (Program.instructions (before.filter Record.isStatement)).length := by
    rw [Program.instructions_statements, hpc]
  have hnext : m.pc + 4 = 4 * (before.instructions.length + 1) := by omega
  constructor
  · intro x name hops
    obtain ⟨i, hi, hregister⟩ := hreal.exists_register hmem (x := x) (by simp [hops])
    obtain ⟨s, hs, hargs⟩ := hreal.argumentBytes_reference hmem hops
    have hslot := hreal.hasSlot hsplit' hhead hargs hcode hpc'
    have hstep : m.step = m.carryOut (m.pc + 4) (.assign i (256 * s.offset.toNat)) := by
      rw [Machine.step_of_load ⟨hfault, hslot⟩ hregister]
      -- the lower byte is the zero that fills the slot up
      rw [show ((0 : UInt8).toNat : Int) = 0 from rfl, Int.add_zero]
    refine ⟨table, s, i, hsymbols, hs, hi, hnext ▸ hstep, ?_⟩
    have hbyte := s.offset.toNat_lt
    rw [hstep]
    exact m.value_carryOut_assign _ i (by omega) (by omega)
  · intro x n hops hlow hhigh
    obtain ⟨i, hi, hregister⟩ := hreal.exists_register hmem (x := x) (by simp [hops])
    have hargs := Program.argumentBytes_immediate (p.filter Record.isStatement) x n
    rw [← hops] at hargs
    have hslot := hreal.hasSlot hsplit' hhead hargs hcode hpc'
    have hstep : m.step = m.carryOut (m.pc + 4) (.assign i n.toInt) := by
      rw [Machine.step_of_load ⟨hfault, hslot⟩ hregister]
      congr 2
      rw [UInt8.toNat_ofNat_of_lt' (show (n.toInt / 256 % 256).toNat < 256 by omega),
          UInt8.toNat_ofNat_of_lt' (show (n.toInt % 256).toNat < 256 by omega)]
      omega
    refine ⟨i, hi, hnext ▸ hstep, ?_⟩
    rw [hstep]
    exact m.value_carryOut_assign _ i hlow hhigh

/-! ## §4. A text that is loaded by its label. -/

/-- The label of the second text is loaded, then a number. -/
def loadedTexts : Program :=
  [{ head := .directive (ascii "data") },
    { label := some (ascii "hello"), head := .directive (ascii "asciiz"),
      operands := [.string (ascii "Hello")] },
    { label := some (ascii "world"), head := .directive (ascii "asciiz"),
      operands := [.string (ascii "World")] },
    { head := .directive (ascii "code") },
    { head := .op 1, operands := [.register 0, .reference (ascii "world")] },
    { head := .op 1, operands := [.register 7, .immediate 300] }]

/-- Its image. -/
def loadedImage : Image :=
  ⟨[72, 101, 108, 108, 111, 0, 87, 111, 114, 108, 100, 0], [1, 0, 6, 0, 1, 7, 1, 44]⟩

theorem load_of_label_sample :
    loadedTexts.assemble.result = .ok loadedImage ∧
    (∃ table s i, loadedTexts.assemble.symbols = some table ∧
      table.lookup? (ascii "world") = some s ∧ i.val = 0 ∧
      (Machine.fresh.loadImage loadedImage).step.2.value i = 256 * s.offset.toNat) ∧
    ∃ i, i.val = 7 ∧
      ({ Machine.fresh.loadImage loadedImage with pc := 4 } : Machine).step.2.value i = 300 := by
  have himg : loadedTexts.assemble.result = .ok loadedImage := rfl
  obtain ⟨hlabel, -⟩ := load_of_label loadedTexts loadedImage himg (loadedTexts.take 4)
    (loadedTexts.drop 5) { head := .op 1, operands := [.register 0, .reference (ascii "world")] } rfl
    rfl (Machine.fresh.loadImage loadedImage) (List.prefix_refl _) rfl rfl
  obtain ⟨-, hnumber⟩ := load_of_label loadedTexts loadedImage himg (loadedTexts.take 5)
    [] { head := .op 1, operands := [.register 7, .immediate 300] } rfl
    rfl { Machine.fresh.loadImage loadedImage with pc := 4 } (List.prefix_refl _) rfl rfl
  obtain ⟨table, s, i, hsymbols, hs, hi, -, hvalue⟩ := hlabel 0 (ascii "world") rfl
  obtain ⟨j, hj, -, hvalue'⟩ := hnumber 7 300 rfl (by decide) (by decide)
  exact ⟨himg, ⟨table, s, i, hsymbols, hs, hi, hvalue⟩, j, hj, hvalue'⟩

/-- **It is not the offset that is loaded.**  The second text is at offset 6 of the data, and loading
its label puts 1536 into the register. -/
theorem not_load_of_offset :
    ¬∀ (p : Program) (img : Image) (before after : Program) (r : Record) (m : Machine) (x : UInt8)
      (name : Bytes) (table : SymbolTable) (s : Symbol) (i : Fin registerCount),
      p.assemble.result = .ok img → p = before ++ r :: after →
      r.head = .op Opcode.load.toByte → r.operands = [.register x, .reference name] →
      m.code = (Machine.fresh.loadImage img).code → m.fault = none →
      m.pc = 4 * before.instructions.length → p.assemble.symbols = some table →
      table.lookup? name = some s → i.val = x.toNat → m.step.2.value i = s.offset.toNat := by
  intro hall
  have hoffset := hall loadedTexts loadedImage (loadedTexts.take 4) (loadedTexts.drop 5)
    { head := .op 1, operands := [.register 0, .reference (ascii "world")] }
    (Machine.fresh.loadImage loadedImage) 0 (ascii "world")
    (Layout.ofProgram loadedTexts).symbols ⟨ascii "world", .data, 6, {}⟩ ⟨0, by decide⟩
    rfl rfl rfl rfl rfl rfl rfl rfl rfl rfl
  have hloaded : (Machine.fresh.loadImage loadedImage).step.2.value ⟨0, by decide⟩ = 1536 := by
    decide
  rw [hloaded] at hoffset
  exact absurd hoffset (by decide)

end Quartet
