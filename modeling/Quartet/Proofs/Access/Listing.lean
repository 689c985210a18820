/-
  Quartet.Proofs.Access.Listing
  ─────────────────────────────
  **A LISTING STAYS INSIDE THE CODE.**

  A listing is written once more with a program counter that moves over the code: opcodes are looked
  up in their table, and operand bytes are taken from the code by their addresses
  (`Checked.instruction`).  No opcode takes more operand bytes than a slot has, so that all of them
  are there: `Checked.listing_eq`.
-/
import Quartet.Proofs.Access.Machine
import Quartet.Proofs.Access.Reader
import Quartet.Proofs.Assembly.Reassembly

namespace Quartet

namespace Checked

/-! ## §1. One instruction. -/

/-- The entry of a byte in the table of opcodes, if the byte is mapped. -/
def opcode (byte : UInt8) : Option (Option Opcode) :=
  if byte.toNat < Opcode.all.length then return some (← item? Opcode.all byte.toNat)
  else return none

/-- The canonical name of the opcode of a byte: the first of its names. -/
def opcodeName (byte : UInt8) : Option Bytes := do
  match ← opcode byte with
  | some op => return ascii (← item? op.names 0)
  | none => return ascii "igl"

/-- The shape of the opcode of a byte. -/
def opcodeShape (byte : UInt8) : Option (List ArgKind) := do
  match ← opcode byte with
  | some op => return op.shape
  | none => return []

section

variable (code : Bytes)

/-- The operands of a shape, whose bytes start at an address. -/
def operandPieces : Int → List ArgKind → Option (List Bytes)
  | _, [] => return []
  | k, .register :: shape => do
    let b ← item? code k
    return (ascii " $" ++ decimalNat b.toNat) :: (← operandPieces (k + 1) shape)
  | k, .immediate :: shape => do
    let high ← item? code k
    let low ← item? code (k + 1)
    return (ascii " #" ++ decimalNat (high.toNat * 256 + low.toNat))
      :: (← operandPieces (k + 2) shape)

/-- The instruction at an address, and the address of the next one. -/
def instruction (pc : Int) : Option (List Bytes × Int) := do
  let byte ← item? code pc
  let name ← opcodeName byte
  if code.length < pc + slotSize then return ([name, ascii " ???"], code.length)
  else
    let operands ← operandPieces code (pc + 1) (← opcodeShape byte)
    return (name :: operands, pc + slotSize)

/-- Lists one instruction more, unless the code ends. -/
def listingStep (s : Int × List Bytes) : Option (List Bytes ⊕ Int × List Bytes) :=
  if s.1 < code.length then do
    let (pieces, next) ← instruction code s.1
    return .inr (next, s.2 ++ (Listing.address (Int64.ofInt s.1).toInt :: pieces ++ [ascii "\n"]))
  else return .inl s.2

/-- The listing of code whose first byte has the address zero. -/
def listing : Option (List Bytes) := iterate code Prod.fst (listingStep code) (0, [])

end

theorem opcode_eq (byte : UInt8) : opcode byte = some (Opcode.ofByte? byte) := by
  unfold opcode Opcode.ofByte?
  by_cases h : byte.toNat < Opcode.all.length
  · rw [if_pos h, item?_natCast, List.getElem?_eq_getElem h]
    rfl
  · rw [if_neg h, List.getElem?_eq_none (Nat.le_of_not_lt h)]
    rfl

/-- Every opcode has a name. -/
theorem opcodeName_eq (byte : UInt8) : opcodeName byte = some (Opcode.nameOfByte byte) := by
  unfold opcodeName Opcode.nameOfByte
  rw [opcode_eq]
  cases Opcode.ofByte? byte with
  | none => rfl
  | some op => cases op <;> rfl

theorem opcodeShape_eq (byte : UInt8) : opcodeShape byte = some (Opcode.shapeOfByte byte) := by
  unfold opcodeShape Opcode.shapeOfByte
  rw [opcode_eq]
  cases Opcode.ofByte? byte <;> rfl

theorem widths_shapeOfByte_le (byte : UInt8) :
    ArgKind.widths (Opcode.shapeOfByte byte) ≤ operandRoom := by
  unfold Opcode.shapeOfByte
  cases Opcode.ofByte? byte with
  | none => exact Nat.zero_le _
  | some op => exact op.widths_shape_le

theorem item?_append {α : Type} (before : List α) (a : α) (after : List α) :
    item? (before ++ a :: after) before.length = some a := by
  rw [item?_natCast, List.getElem?_append_right (Nat.le_refl _), Nat.sub_self]
  rfl

/-- Operands that fit into a slot are taken from inside it. -/
theorem operandPieces_eq (shape : List ArgKind) : ∀ before args rest : Bytes,
    ArgKind.widths shape ≤ args.length →
    operandPieces (before ++ (args ++ rest)) before.length shape =
      some (Listing.operandPieces shape args) := by
  induction shape with
  | nil => exact fun _ _ _ _ => rfl
  | cons kind shape ih =>
      intro before args rest hargs
      cases kind with
      | register =>
          cases args with
          | nil => exact absurd hargs (by simp [ArgKind.widths, ArgKind.width])
          | cons b args =>
              simp only [ArgKind.widths, ArgKind.width, List.length_cons] at hargs
              have hrest : operandPieces (before ++ b :: (args ++ rest)) (before.length + 1) shape =
                  some (Listing.operandPieces shape args) := by
                have h := ih (before ++ [b]) args rest (by omega)
                rw [List.length_append, Int.natCast_add, List.append_assoc] at h
                exact h
              unfold operandPieces
              rw [List.cons_append, item?_append, hrest]
              rfl
      | immediate =>
          match args with
          | [] | [_] =>
              simp only [ArgKind.widths, ArgKind.width, List.length_cons, List.length_nil] at hargs
              omega
          | high :: low :: args =>
              simp only [ArgKind.widths, ArgKind.width, List.length_cons] at hargs
              have hlow : item? (before ++ high :: low :: (args ++ rest)) (before.length + 1) =
                  some low := by
                have h := item?_append (before ++ [high]) low (args ++ rest)
                rw [List.length_append, Int.natCast_add, List.append_assoc] at h
                exact h
              have hrest : operandPieces (before ++ high :: low :: (args ++ rest))
                  (before.length + 2) shape = some (Listing.operandPieces shape args) := by
                have h := ih (before ++ [high, low]) args rest (by omega)
                rw [List.length_append, Int.natCast_add, List.append_assoc] at h
                exact h
              unfold operandPieces
              rw [List.cons_append, List.cons_append, item?_append, hlow, hrest]
              rfl

theorem instruction_of_item? {code : Bytes} {pc : Int} {byte : UInt8}
    (h : item? code pc = some byte) :
    instruction code pc =
      if code.length < pc + slotSize then
        some ([Opcode.nameOfByte byte, ascii " ???"], (code.length : Int))
      else do
        let operands ← operandPieces code (pc + 1) (Opcode.shapeOfByte byte)
        return (Opcode.nameOfByte byte :: operands, pc + slotSize) := by
  unfold instruction
  rw [h]
  show (opcodeName byte >>= _) = _
  rw [opcodeName_eq]
  show (if _ then _ else (opcodeShape byte >>= _)) = _
  rw [opcodeShape_eq]
  rfl

/-- **What is listed of an instruction stands in the code.** -/
theorem instruction_eq (before : Bytes) {after : Bytes} (hne : after ≠ []) :
    instruction (before ++ after) before.length =
      some (Listing.slotPieces after, ((before ++ after.take slotSize).length : Int)) := by
  obtain ⟨byte, rest, rfl⟩ := List.exists_cons_of_ne_nil hne
  rw [instruction_of_item? (item?_append before byte rest)]
  match rest with
  | a :: b :: c :: rest =>
      have hoperands : operandPieces (before ++ byte :: a :: b :: c :: rest) (before.length + 1)
          (Opcode.shapeOfByte byte) =
            some (Listing.operandPieces (Opcode.shapeOfByte byte) [a, b, c]) := by
        have h := operandPieces_eq _ (before ++ [byte]) [a, b, c] rest (widths_shapeOfByte_le byte)
        rw [List.length_append, Int.natCast_add, List.append_assoc] at h
        exact h
      have hwhole : ¬((before ++ byte :: a :: b :: c :: rest).length : Int) <
          before.length + slotSize := by
        simp only [List.length_append, List.length_cons, slotSize]
        omega
      rw [if_neg hwhole, hoperands, List.length_append, Int.natCast_add]
      rfl
  | [] | [_] | [_, _] =>
      refine (if_pos ?_).trans rfl
      simp only [List.length_append, List.length_cons, List.length_nil, slotSize]
      omega

/-! ## §2. All instructions. -/

theorem pieces_nil (base : Int64) : Listing.pieces base [] = [] := by
  unfold Listing.pieces
  rw [Listing.lines]
  rfl

theorem pieces_of_ne_nil (base : Int64) {code : Bytes} (hne : code ≠ []) :
    Listing.pieces base code =
      (Listing.address base.toInt :: Listing.slotPieces code ++ [ascii "\n"]) ++
        Listing.pieces (base + Int64.ofNat slotSize) (code.drop slotSize) := by
  unfold Listing.pieces
  rw [Listing.lines, if_neg hne, List.flatten_cons]

/-- The addresses go up with the program counter, as long as there is something to list. -/
theorem pieces_drop (before after : Bytes) :
    Listing.pieces (Int64.ofInt (before ++ after.take slotSize).length) (after.drop slotSize) =
      Listing.pieces (Int64.ofInt before.length + Int64.ofNat slotSize) (after.drop slotSize) := by
  by_cases hrest : after.drop slotSize = []
  · rw [hrest, pieces_nil, pieces_nil]
  · have hlong : slotSize ≤ after.length := by
      rw [List.drop_eq_nil_iff] at hrest
      omega
    rw [List.length_append, List.length_take, Nat.min_eq_left hlong, Int.natCast_add,
        Int64.ofInt_add]
    rfl

theorem listing_from (n : Nat) : ∀ (before after : Bytes) (out : List Bytes), after.length < n →
    iterate (before ++ after) Prod.fst (listingStep (before ++ after)) (before.length, out) =
      some (out ++ Listing.pieces (Int64.ofInt before.length) after) := by
  induction n with
  | zero => exact fun _ _ _ hn => absurd hn (Nat.not_lt_zero _)
  | succ n ih =>
      intro before after out hn
      by_cases hne : after = []
      · subst hne
        rw [pieces_nil, List.append_nil, List.append_nil]
        exact iterate_of_inl (if_neg (Int.lt_irrefl _))
      · have hpos : 0 < after.length := List.length_pos_iff.mpr hne
        -- one instruction is listed, and the rest follows it
        have hsplit : before ++ after =
            (before ++ after.take slotSize) ++ after.drop slotSize := by
          rw [List.append_assoc, List.take_append_drop]
        have hstep : listingStep (before ++ after) (before.length, out) =
            some (.inr (((before ++ after.take slotSize).length : Int), out ++
              (Listing.address (Int64.ofInt before.length).toInt :: Listing.slotPieces after
                ++ [ascii "\n"]))) := by
          unfold listingStep
          rw [if_pos (by rw [List.length_append]; omega), instruction_eq before hne]
          rfl
        rw [iterate_of_inr hstep, pieces_of_ne_nil _ hne, ← pieces_drop, hsplit]
        · refine (ih _ _ _ ?_).trans (congrArg some (List.append_assoc out _ _))
          rw [List.length_drop]
          unfold slotSize
          omega
        · show (before.length : Int) < (before ++ after.take slotSize).length
          rw [List.length_append, List.length_take]
          unfold slotSize
          omega
        · show ((before ++ after.take slotSize).length : Int) ≤ (before ++ after).length
          rw [List.length_append, List.length_append, List.length_take]
          omega

/-- **A listing never reaches outside the code.** -/
theorem listing_eq (code : Bytes) : listing code = some (Listing.pieces 0 code) :=
  listing_from _ [] code [] (Nat.lt_succ_self _)

end Checked

end Quartet
