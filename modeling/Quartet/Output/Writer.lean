/-
  Quartet.Output.Writer
  ─────────────────────
  **WRITING UNTIL SOMETHING FAILS.**

  A device takes bytes and may fail at any write.  A writer keeps the first failure of its device
  and never writes again after it, so that it is enough to look for a failure once, at the end.

  What the definitions stand for: `Writer` for `ErrWriter` and `Writer.write` for
  `ErrWriter.Write`.
-/
import Quartet.Bytes

namespace Quartet

/-! ## §1. Devices. -/

/-- Something that can be written to: the state after a write, the number of bytes taken, and the
failure if the write failed. -/
structure Device (State Failure : Type) where
  /-- Writes bytes. -/
  write : State → Bytes → State × Nat × Option Failure

/-- Storage that may be limited. -/
structure Store where
  /-- The bytes stored. -/
  stored : Array UInt8 := #[]
  /-- The most bytes it takes, if there is a limit.  Storage that holds more than its limit, as
  all storage does if the limit is negative, takes no write, not even an empty one. -/
  limit : Option Int := none
deriving DecidableEq, Repr

/-- Why storage fails. -/
inductive StoreFailure where
  /-- There is no room for all the bytes of a write. -/
  | full
deriving DecidableEq, Repr

/-- The wording of a storage failure. -/
def StoreFailure.message : StoreFailure → Bytes
  | .full => ascii "disk full"

/-- The wording of a storage failure where it ends the work. -/
def StoreFailure.report (f : StoreFailure) : Bytes := ascii "write failed: " ++ f.message

/-- Stores bytes.  If they do not all fit, those that fit are stored and the write fails. -/
def Store.write (s : Store) (bs : Bytes) : Store × Nat × Option StoreFailure :=
  match s.limit with
  | none => ({ s with stored := s.stored ++ bs }, bs.length, none)
  | some limit =>
    if (s.stored.size + bs.length : Int) ≤ limit then
      ({ s with stored := s.stored ++ bs }, bs.length, none)
    else
      let fitting := bs.take (limit - s.stored.size).toNat
      ({ s with stored := s.stored ++ fitting }, fitting.length, some .full)

/-- Storage as a device. -/
def Store.device : Device Store StoreFailure := ⟨Store.write⟩

/-- A device that never fails and keeps apart what was written at different times. -/
def Device.tape : Device (List Bytes) Empty where
  write pieces bs := (pieces ++ [bs], bs.length, none)

/-! ## §2. Writers. -/

/-- The state of a device and its first failure. -/
structure Writer (State Failure : Type) where
  /-- The state of the device. -/
  state : State
  /-- The first failure. -/
  failure : Option Failure := none

namespace Writer

variable {State Failure : Type}

/-- Writes bytes unless a write has failed; also gives the number of bytes that were taken. -/
def write (d : Device State Failure) (w : Writer State Failure) (bs : Bytes) :
    Writer State Failure × Nat :=
  match w.failure with
  | some _ => (w, 0)
  | none => (⟨(d.write w.state bs).1, (d.write w.state bs).2.2⟩, (d.write w.state bs).2.1)

/-- Writes pieces in order. -/
def writeAll (d : Device State Failure) (w : Writer State Failure) (pieces : List Bytes) :
    Writer State Failure :=
  pieces.foldl (fun w piece => (w.write d piece).1) w

/-- After a failure nothing is written. -/
theorem writeAll_of_failure (d : Device State Failure) (w : Writer State Failure)
    (h : w.failure.isSome) (pieces : List Bytes) : w.writeAll d pieces = w := by
  have hwrite : ∀ bs, (w.write d bs).1 = w := by
    intro bs
    unfold write
    split
    · rfl
    · next hnone => simp [hnone] at h
  induction pieces with
  | nil => rfl
  | cons piece rest ih =>
    unfold writeAll at ih ⊢
    rw [List.foldl_cons, hwrite, ih]

end Writer

/-- Writes pieces in order to storage. -/
def Store.print (s : Store) (pieces : List Bytes) : Writer Store StoreFailure :=
  Writer.writeAll Store.device ⟨s, none⟩ pieces

end Quartet
