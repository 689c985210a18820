/-
  Quartet.Bytes
  ─────────────
  **BYTE STRINGS, AND NUMBERS IN THEM.**

  Source text, code, data, images and everything that is printed are strings of bytes.  A byte
  string need not be well-formed UTF-8; `Quartet.Text.Glyph` reads the code points out of one.

  Numbers are written in their shortest decimal form, in columns of a fixed least width, or with two
  hexadecimal digits a byte.  Numerals are read from the left, and the first problem met is the one
  reported: a numeral that is already too large is `tooLarge` even if something that is no digit
  follows.
-/

namespace Quartet

/-! ## §1. Bytes. -/

/-- A byte string. -/
abbrev Bytes := List UInt8

/-- The byte of an ASCII character. -/
def asciiByte (c : Char) : UInt8 := UInt8.ofNat c.toNat

/-- The bytes of a text that is written in ASCII. -/
def ascii (s : String) : Bytes := s.toList.map asciiByte

/-- Texts joined by line ends, with none after the last. -/
def joinLines (lines : List Bytes) : Bytes := List.intercalate [asciiByte '\n'] lines

/-! ## §2. Decimal numbers. -/

/-- A natural number in decimal, without leading zeros. -/
def decimalNat (n : Nat) : Bytes := (Nat.toDigits 10 n).map asciiByte

/-- An integer in decimal, a negative one with a minus sign. -/
def decimal : Int → Bytes
  | .ofNat n => decimalNat n
  | .negSucc n => asciiByte '-' :: decimalNat (n + 1)

/-- A text right-aligned in a column of at least `width` bytes. -/
def padLeft (width : Nat) (bs : Bytes) : Bytes :=
  List.replicate (width - bs.length) (asciiByte ' ') ++ bs

/-- A text left-aligned in a column of at least `width` bytes. -/
def padRight (width : Nat) (bs : Bytes) : Bytes :=
  bs ++ List.replicate (width - bs.length) (asciiByte ' ')

/-- A number with one place for its sign: a space stands where a negative number has its minus. -/
def signedDecimal (n : Int) : Bytes :=
  if n < 0 then decimal n else asciiByte ' ' :: decimal n

/-- The words for truth values. -/
def boolWord (b : Bool) : Bytes := if b then ascii "true" else ascii "false"

/-! ## §3. Hexadecimal digits. -/

/-- The lower-case hexadecimal digit of a number below sixteen. -/
def hexDigit (n : Nat) : UInt8 := asciiByte (Nat.digitChar n)

/-- The last `width` hexadecimal digits of a number. -/
def hexDigits : Nat → Nat → Bytes
  | 0, _ => []
  | width + 1, n => hexDigits width (n / 16) ++ [hexDigit (n % 16)]

/-- A byte as two hexadecimal digits. -/
def hexByte (b : UInt8) : Bytes := hexDigits 2 b.toNat

/-- Bytes in hexadecimal, divided by spaces. -/
def hexSpaced (bs : Bytes) : Bytes := List.intercalate [asciiByte ' '] (bs.map hexByte)

/-! ## §4. Reading numbers. -/

namespace Numeral

/-- Why a text is not the numeral of a number in range. -/
inductive Problem where
  /-- Something stands in it that does not belong there, or nothing at all. -/
  | malformed
  /-- The number is outside the range asked for. -/
  | tooLarge
deriving DecidableEq, Repr

/-- The value of a digit: `0` to `9`, then the letters of either case. -/
def digit? (b : UInt8) : Option Nat :=
  if asciiByte '0' ≤ b ∧ b ≤ asciiByte '9' then some (b.toNat - 48)
  else if asciiByte 'a' ≤ b ∧ b ≤ asciiByte 'z' then some (b.toNat - 87)
  else if asciiByte 'A' ≤ b ∧ b ≤ asciiByte 'Z' then some (b.toNat - 55)
  else none

/-- The number written by more digits after those that gave `value`, at most `most`.  With
`spaced`, underscores are passed over. -/
def continueFrom (base most : Nat) (spaced : Bool) (value : Nat) : Bytes → Except Problem Nat
  | [] => .ok value
  | b :: rest =>
    if spaced ∧ b = asciiByte '_' then continueFrom base most spaced value rest
    else
      match digit? b with
      | none => .error .malformed
      | some d =>
        if base ≤ d then .error .malformed
        else if most < value * base + d then .error .tooLarge
        else continueFrom base most spaced (value * base + d) rest

/-- A number from 0 to `most` in the given base: one or more digits. -/
def natural (base most : Nat) (bs : Bytes) : Except Problem Nat :=
  if bs = [] then .error .malformed else continueFrom base most false 0 bs

/-! ## §5. Literals with a base mark. -/

/-- Whether a byte is the base mark `letter` in either case. -/
def isMark (letter : Char) (b : UInt8) : Bool :=
  b = asciiByte letter || b + 32 = asciiByte letter

/-- The base that a literal's start announces, and the digits after the mark: `0b`, `0o` and `0x`
with at least one more byte, else octal after a zero, else decimal. -/
def splitBase (bs : Bytes) : Nat × Bytes :=
  match bs with
  | zero :: rest =>
    if zero = asciiByte '0' then
      match rest with
      | mark :: digits =>
        if digits = [] then (8, rest)
        else if isMark 'b' mark then (2, digits)
        else if isMark 'o' mark then (8, digits)
        else if isMark 'x' mark then (16, digits)
        else (8, rest)
      | [] => (8, rest)
    else (10, bs)
  | [] => (10, [])

/-- What stood last while the underscores of a literal are checked. -/
inductive Last where
  /-- Nothing yet. -/
  | start
  /-- A digit or the base mark. -/
  | digit
  /-- An underscore. -/
  | underscore
  /-- Anything else. -/
  | other
deriving DecidableEq

/-- Whether every underscore from here on stands between two digits. -/
def underscoresFrom (hex : Bool) : Last → Bytes → Bool
  | last, [] => last ≠ .underscore
  | last, b :: rest =>
    if (asciiByte '0' ≤ b ∧ b ≤ asciiByte '9') ∨
        (hex ∧ (asciiByte 'a' ≤ b ∧ b ≤ asciiByte 'f' ∨ asciiByte 'A' ≤ b ∧ b ≤ asciiByte 'F')) then
      underscoresFrom hex .digit rest
    else if b = asciiByte '_' then
      last = .digit && underscoresFrom hex .underscore rest
    else last ≠ .underscore && underscoresFrom hex .other rest

/-- Whether every underscore of a literal stands between two digits, the base mark counting as
one. -/
def underscoresOk (bs : Bytes) : Bool :=
  match bs with
  | zero :: mark :: rest =>
    if zero = asciiByte '0' ∧ (isMark 'b' mark ∨ isMark 'o' mark ∨ isMark 'x' mark) then
      underscoresFrom (isMark 'x' mark) .digit rest
    else underscoresFrom false .start bs
  | _ => underscoresFrom false .start bs

/-- The number of a literal without sign, at most `2 ^ 64 - 1`. -/
def literal (bs : Bytes) : Except Problem Nat :=
  if bs = [] then .error .malformed
  else
    match continueFrom (splitBase bs).1 0xFFFFFFFFFFFFFFFF true 0 (splitBase bs).2 with
    | .error e => .error e
    | .ok n =>
      if asciiByte '_' ∈ bs ∧ !underscoresOk bs then .error .malformed else .ok n

/-- The number of a literal with an optional sign, from `-2 ^ 63` to `2 ^ 63 - 1`. -/
def signedLiteral (bs : Bytes) : Except Problem Int :=
  match bs with
  | sign :: rest =>
    if sign = asciiByte '-' then
      match literal rest with
      | .error e => .error e
      | .ok n => if 0x8000000000000000 < n then .error .tooLarge else .ok (-n)
    else positive (if sign = asciiByte '+' then rest else bs)
  | [] => .error .malformed
where
  /-- A literal that is not negative. -/
  positive (bs : Bytes) : Except Problem Int :=
    match literal bs with
    | .error e => .error e
    | .ok n => if 0x8000000000000000 ≤ n then .error .tooLarge else .ok n

end Numeral

/-- The words for truth values that a switch takes. -/
def truthWord? (bs : Bytes) : Option Bool :=
  if bs ∈ ["1", "t", "T", "TRUE", "true", "True"].map ascii then some true
  else if bs ∈ ["0", "f", "F", "FALSE", "false", "False"].map ascii then some false
  else none

/-! ## §6. Steps that can fail. -/

/-- If a step and what follows it succeed, the step has a result from which the rest succeeds. -/
theorem bind_eq_ok {ε α β : Type} {x : Except ε α} {f : α → Except ε β} {r : β}
    (h : (x >>= f) = .ok r) : ∃ v, x = .ok v ∧ f v = .ok r := by
  cases x with
  | error reason => exact absurd h nofun
  | ok v => exact ⟨v, rfl, h⟩

end Quartet
