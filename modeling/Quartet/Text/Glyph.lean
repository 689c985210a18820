/-
  Quartet.Text.Glyph
  ──────────────────
  **CODE POINTS OF A BYTE STRING.**

  Text is read one code point at a time.  A well-formed UTF-8 sequence is one code point; a byte
  that starts no such sequence is read alone, as the replacement character U+FFFD.  Every glyph
  keeps the bytes it was read from, so that reading loses nothing:

      (glyphs bs).flatMap Glyph.bytes = bs
-/
import Quartet.Bytes

namespace Quartet

/-! ## §1. Glyphs. -/

/-- A code point as it was read, with the bytes it was read from. -/
structure Glyph where
  /-- The code point; U+FFFD for a byte that is no part of well-formed UTF-8. -/
  char : Char
  /-- The bytes it stands for, one to four of them. -/
  bytes : Bytes
deriving DecidableEq, Repr

namespace Glyph

/-- What a byte reads as that starts no well-formed sequence. -/
def replacement : Char := Char.ofNat 0xFFFD

/-- A byte that is read alone. -/
def stray (b : UInt8) : Glyph := ⟨replacement, [b]⟩

/-- Whether the glyph is a byte that is no part of well-formed UTF-8: a well-formed U+FFFD takes
three bytes. -/
def isStray (g : Glyph) : Bool := g.char == replacement && g.bytes.length == 1

/-! ## §2. One code point. -/

/-- The six payload bits of a continuation byte `10xxxxxx`. -/
def payload? (b : UInt8) : Option Nat :=
  if b.toNat / 64 = 2 then some (b.toNat % 64) else none

/-- The code point `v`, if it is a scalar value and needs a sequence of this length, that is, if it
is not below `least`. -/
def scalar? (least v : Nat) : Option Char :=
  if least ≤ v ∧ v.isValidChar then some (Char.ofNat v) else none

/-- The code point of a two-byte sequence. -/
def two? (a b : UInt8) : Option Char := do
  let x ← payload? b
  scalar? 0x80 (a.toNat % 32 * 64 + x)

/-- The code point of a three-byte sequence. -/
def three? (a b c : UInt8) : Option Char := do
  let x ← payload? b
  let y ← payload? c
  scalar? 0x800 ((a.toNat % 16 * 64 + x) * 64 + y)

/-- The code point of a four-byte sequence. -/
def four? (a b c d : UInt8) : Option Char := do
  let x ← payload? b
  let y ← payload? c
  let z ← payload? d
  scalar? 0x10000 (((a.toNat % 8 * 64 + x) * 64 + y) * 64 + z)

/-- The code point of the sequence that starts with byte `a`, and how many bytes of `rest` belong
to it.  The first byte fixes the length; there is no code point if the sequence breaks off, is
longer than needed or stands for no scalar value. -/
def sequence? (a : UInt8) (rest : Bytes) : Option (Char × Nat) :=
  if a.toNat < 0x80 then some (Char.ofNat a.toNat, 0)
  else if a.toNat < 0xC0 then none
  else if a.toNat < 0xE0 then
    match rest with
    | b :: _ => (two? a b).map (·, 1)
    | _ => none
  else if a.toNat < 0xF0 then
    match rest with
    | b :: c :: _ => (three? a b c).map (·, 2)
    | _ => none
  else if a.toNat < 0xF8 then
    match rest with
    | b :: c :: d :: _ => (four? a b c d).map (·, 3)
    | _ => none
  else none

/-- The glyph that starts with byte `a`, and how many bytes of `rest` belong to it. -/
def first (a : UInt8) (rest : Bytes) : Glyph × Nat :=
  match sequence? a rest with
  | some (c, n) => (⟨c, a :: rest.take n⟩, n)
  | none => (stray a, 0)

/-- The lower case of a glyph, as far as it is an ASCII letter: the capitals, the dotted capital I
(U+0130) and the kelvin sign (U+212A) are the only code points whose lower case is one.  Any other
code point is kept. -/
def lower (g : Glyph) : Char :=
  if 'A' ≤ g.char ∧ g.char ≤ 'Z' then Char.ofNat (g.char.toNat + 32)
  else if g.char.toNat = 0x130 then 'i'
  else if g.char.toNat = 0x212A then 'k'
  else g.char

end Glyph

/-! ## §3. All code points. -/

/-- The glyphs of a byte string in order. -/
def glyphs (bs : Bytes) : List Glyph :=
  (go 0 bs #[]).toList
where
  /-- Adds to `read` the glyphs of what follows the first `skip` bytes. -/
  go : Nat → Bytes → Array Glyph → Array Glyph
    | _, [], read => read
    | skip + 1, _ :: rest, read => go skip rest read
    | 0, a :: rest, read => go (Glyph.first a rest).2 rest (read.push (Glyph.first a rest).1)

/-- The bytes a list of glyphs was read from. -/
def unread (gs : List Glyph) : Bytes := gs.flatMap Glyph.bytes

/-! ## §4. Reading loses nothing. -/

private theorem glyphs_go_eq (skip : Nat) (bs : Bytes) (read : Array Glyph) :
    (glyphs.go skip bs read).toList = read.toList ++ glyphs (bs.drop skip) := by
  induction bs generalizing skip read with
  | nil => cases skip <;> simp [glyphs, glyphs.go]
  | cons a rest ih =>
    cases skip with
    | zero =>
      simp only [glyphs, glyphs.go, List.drop_zero]
      rw [ih, ih]
      simp
    | succ skip => simp only [glyphs.go, List.drop_succ_cons, ih]

@[simp] theorem glyphs_nil : glyphs [] = [] := rfl

theorem glyphs_cons (a : UInt8) (rest : Bytes) :
    glyphs (a :: rest) =
      (Glyph.first a rest).1 :: glyphs (rest.drop (Glyph.first a rest).2) := by
  simp only [glyphs, glyphs.go]
  rw [glyphs_go_eq]
  rfl

/-- A glyph holds the bytes it was read from. -/
theorem Glyph.bytes_first (a : UInt8) (rest : Bytes) :
    (Glyph.first a rest).1.bytes = a :: rest.take (Glyph.first a rest).2 := by
  unfold Glyph.first
  split <;> simp [Glyph.stray]

@[simp] theorem unread_nil : unread [] = [] := rfl

@[simp] theorem unread_cons (g : Glyph) (gs : List Glyph) : unread (g :: gs) = g.bytes ++ unread gs :=
  rfl

@[simp] theorem unread_append (gs hs : List Glyph) : unread (gs ++ hs) = unread gs ++ unread hs := by
  simp [unread]

/-- The bytes of the glyphs of a text are the text. -/
@[simp] theorem unread_glyphs (bs : Bytes) : unread (glyphs bs) = bs := by
  match bs with
  | [] => rfl
  | a :: rest =>
    rw [glyphs_cons, unread_cons, Glyph.bytes_first, unread_glyphs (rest.drop _)]
    simp
termination_by bs.length
decreasing_by simp only [List.length_drop, List.length_cons]; omega

end Quartet
