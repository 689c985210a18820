/-
  Quartet.Source.Parser
  ─────────────────────
  **FROM TEXT TO RECORDS.**

  White space and comments may stand between any two tokens.  A record is an optional label, a head
  and up to three operands.  A label is a name with a colon right after it; a head is the name of an
  operation, or a point and the name of a directive.  Operands are `$` and digits, `#` and an
  integer, `@` and a name, or a text in single quotation marks.

  A text is refused at the first token that does not fit.

  What the definitions stand for: `Cursor.name`, `Cursor.operand`, `Cursor.operands`,
  `Cursor.head` and `Cursor.record` for the methods of `parser` of these names, `Cursor.records` for
  `parser.parse` and `Program.parse` for `Parse`.
-/
import Quartet.Opcode
import Quartet.Source.Record
import Quartet.Text.Characters

namespace Quartet

/-! ## §1. Names and digits. -/

/-- Whether a code point may start a name. -/
def isNameStart (c : Char) : Bool := c = '_' || isLetter c

/-- Whether a code point may stand inside a name. -/
def isNamePart (c : Char) : Bool := c = '_' || isLetter c || isDigit c

/-- Whether a code point is one of the ten digits of ASCII. -/
def isAsciiDigit (c : Char) : Bool := '0' ≤ c && c ≤ '9'

/-- The number that decimal digits write. -/
def digitsValue (ds : List Glyph) : Nat := Nat.ofDigitChars 10 (ds.map Glyph.char) 0

namespace Cursor

/-- The name at a cursor; empty if there is none. -/
def name (c : Cursor) : Bytes := unread (c.run isNamePart)

/-- Moves past a name. -/
def skipName (c : Cursor) : Cursor := c.skipRun isNamePart

/-! ## §2. Operands. -/

/-- A register operand, whose `$` is at the cursor. -/
def registerOperand (c : Cursor) : Except SyntaxError (Token × Cursor) :=
  let digits := c.next.run isAsciiDigit
  if digits = [] then .error (c.problem .registerNumber)
  else if 255 < digitsValue digits then .error (c.problem (.registerRange (unread digits)))
  else .ok (.register (UInt8.ofNat (digitsValue digits)), c.next.skipRun isAsciiDigit)

/-- The minus sign at the cursor, if there is one. -/
def sign (c : Cursor) : List Glyph := (c.rest.take 1).filter fun g => g.char = '-'

/-- Moves past a minus sign, if there is one. -/
def skipSign (c : Cursor) : Cursor := if c.sign = [] then c else c.next

/-- The integer that a sign and decimal digits write. -/
def signedValue (sign digits : List Glyph) : Int :=
  if sign = [] then digitsValue digits else -(digitsValue digits)

/-- A number operand, whose `#` is at the cursor. -/
def immediateOperand (c : Cursor) : Except SyntaxError (Token × Cursor) :=
  let sign := c.next.sign
  let digits := c.next.skipSign.run isAsciiDigit
  if digits = [] then .error (c.problem .integer)
  else if signedValue sign digits < -0x80000000 ∨ 0x80000000 ≤ signedValue sign digits then
    .error (c.problem (.integerRange (unread (sign ++ digits))))
  else
    .ok (.immediate (Int32.ofInt (signedValue sign digits)), c.next.skipSign.skipRun isAsciiDigit)

/-- A reference to a label, whose `@` is at the cursor. -/
def referenceOperand (c : Cursor) : Except SyntaxError (Token × Cursor) :=
  if c.next.at? isNameStart then .ok (.reference c.next.name, c.next.skipName)
  else .error (c.problem .labelName)

/-- A text, whose first quotation mark is at the cursor. -/
def stringOperand (c : Cursor) : Except SyntaxError (Token × Cursor) :=
  let ended := c.next.skipRun (· ≠ '\'')
  if ended.rest = [] then .error (c.problem .unterminatedString)
  else .ok (.string (unread (c.next.run (· ≠ '\''))), ended.next)

/-- The operand at the cursor, or none if no operand starts there. -/
def operand (c : Cursor) : Option (Except SyntaxError (Token × Cursor)) :=
  if c.at? (· = '$') then some c.registerOperand
  else if c.at? (· = '#') then some c.immediateOperand
  else if c.at? (· = '@') then some c.referenceOperand
  else if c.at? (· = '\'') then some c.stringOperand
  else none

/-- The operands that follow, at most `limit` of them. -/
def operands : Nat → Cursor → Except SyntaxError (List Token × Cursor)
  | 0, c => .ok ([], c)
  | limit + 1, c =>
    match c.skipGap.operand with
    | none => .ok ([], c.skipGap)
    | some (.error e) => .error e
    | some (.ok (t, after)) =>
      match operands limit after with
      | .error e => .error e
      | .ok (ts, final) => .ok (t :: ts, final)

/-! ## §3. Records. -/

/-- The most operands a record may have. -/
def maxOperands : Nat := 3

/-- The label at the cursor, if there is one, and the place of what it labels. -/
def label (c : Cursor) : Option Bytes × Cursor :=
  if c.at? isNameStart && c.skipName.at? (· = ':') then (some c.name, c.skipName.next.skipGap)
  else (none, c)

/-- The head of a record with the given label. -/
def head (label : Option Bytes) (c : Cursor) : Except SyntaxError (Token × Cursor) :=
  if c.at? (· = '.') then
    if c.next.at? isNameStart then .ok (.directive c.next.name, c.next.skipName)
    else .error (c.problem .directiveName)
  else if c.at? isNameStart then
    match Opcode.lookup? c.name with
    | some op => .ok (.op op.toByte, c.skipName)
    | none => .error (c.problem (.unknownMnemonic c.name))
  else
    match label with
    | some name => .error (c.problem (.nothingAfterLabel name))
    | none => .error (c.problem .noRecord)

/-- The record at the cursor. -/
def record (c : Cursor) : Except SyntaxError (Record × Cursor) :=
  match head c.label.1 c.label.2 with
  | .error e => .error e
  | .ok (head, after) =>
    match operands maxOperands after with
    | .error e => .error e
    | .ok (operands, final) => .ok (⟨c.pos, c.label.1, head, operands⟩, final)

/-! ## §4. A record is never empty. -/

theorem length_registerOperand_le {c d : Cursor} {t : Token}
    (h : c.registerOperand = .ok (t, d)) : d.rest.length ≤ c.rest.length := by
  unfold registerOperand at h
  simp only at h
  repeat' split at h
  all_goals simp only [reduceCtorEq, Except.ok.injEq, Prod.mk.injEq] at h
  obtain ⟨_, rfl⟩ := h
  exact Nat.le_trans (length_skipRun_le _ _) (length_next_le _)

theorem length_skipSign_le (c : Cursor) : c.skipSign.rest.length ≤ c.rest.length := by
  unfold skipSign
  split
  · exact Nat.le_refl _
  · exact length_next_le c

theorem length_immediateOperand_le {c d : Cursor} {t : Token}
    (h : c.immediateOperand = .ok (t, d)) : d.rest.length ≤ c.rest.length := by
  unfold immediateOperand at h
  simp only at h
  repeat' split at h
  all_goals simp only [reduceCtorEq, Except.ok.injEq, Prod.mk.injEq] at h
  obtain ⟨_, rfl⟩ := h
  exact Nat.le_trans (length_skipRun_le _ _)
    (Nat.le_trans (length_skipSign_le _) (length_next_le _))

theorem length_referenceOperand_le {c d : Cursor} {t : Token}
    (h : c.referenceOperand = .ok (t, d)) : d.rest.length ≤ c.rest.length := by
  unfold referenceOperand at h
  split at h
  · simp only [Except.ok.injEq, Prod.mk.injEq] at h
    obtain ⟨_, rfl⟩ := h
    exact Nat.le_trans (length_skipRun_le _ _) (length_next_le _)
  · exact absurd h (by simp)

theorem length_stringOperand_le {c d : Cursor} {t : Token}
    (h : c.stringOperand = .ok (t, d)) : d.rest.length ≤ c.rest.length := by
  unfold stringOperand at h
  simp only at h
  split at h
  · exact absurd h (by simp)
  · simp only [Except.ok.injEq, Prod.mk.injEq] at h
    obtain ⟨_, rfl⟩ := h
    exact Nat.le_trans (length_next_le _) (Nat.le_trans (length_skipRun_le _ _) (length_next_le _))

theorem length_operand_le {c d : Cursor} {t : Token} (h : c.operand = some (.ok (t, d))) :
    d.rest.length ≤ c.rest.length := by
  unfold operand at h
  repeat' split at h
  · exact length_registerOperand_le (Option.some.inj h)
  · exact length_immediateOperand_le (Option.some.inj h)
  · exact length_referenceOperand_le (Option.some.inj h)
  · exact length_stringOperand_le (Option.some.inj h)
  · exact absurd h (by simp)

theorem length_operands_le {limit : Nat} {c d : Cursor} {ts : List Token}
    (h : operands limit c = .ok (ts, d)) : d.rest.length ≤ c.rest.length := by
  induction limit generalizing c ts with
  | zero =>
    simp only [operands, Except.ok.injEq, Prod.mk.injEq] at h
    obtain ⟨_, rfl⟩ := h
    exact Nat.le_refl _
  | succ limit ih =>
    unfold operands at h
    split at h
    · simp only [Except.ok.injEq, Prod.mk.injEq] at h
      obtain ⟨_, rfl⟩ := h
      exact length_skipGap_le c
    · exact absurd h (by simp)
    · next t after hop =>
      split at h
      · exact absurd h (by simp)
      · next us final hrest =>
        simp only [Except.ok.injEq, Prod.mk.injEq] at h
        obtain ⟨_, rfl⟩ := h
        exact Nat.le_trans (ih hrest) (Nat.le_trans (length_operand_le hop) (length_skipGap_le c))

theorem length_label_le (c : Cursor) : c.label.2.rest.length ≤ c.rest.length := by
  unfold label
  split
  · exact Nat.le_trans (length_skipGap_le _)
      (Nat.le_trans (length_next_le _) (length_skipRun_le _ _))
  · exact Nat.le_refl _

theorem length_head_lt {label : Option Bytes} {c d : Cursor} {t : Token}
    (h : head label c = .ok (t, d)) : d.rest.length < c.rest.length := by
  unfold head at h
  split at h
  · next hdot =>
    split at h
    · simp only [Except.ok.injEq, Prod.mk.injEq] at h
      obtain ⟨_, rfl⟩ := h
      exact Nat.lt_of_le_of_lt (length_skipRun_le _ _) (length_next_lt hdot)
    · exact absurd h (by simp)
  · split at h
    · next hname =>
      have hpart : c.at? isNamePart = true := by
        unfold at? at hname ⊢
        split
        · next heq => simp [heq] at hname
        · next g rest heq =>
          simp only [heq, isNameStart, isNamePart, Bool.or_eq_true] at hname ⊢
          exact Or.inl hname
      split at h
      · simp only [Except.ok.injEq, Prod.mk.injEq] at h
        obtain ⟨_, rfl⟩ := h
        exact length_skipRun_lt hpart
      · exact absurd h (by simp)
    · split at h <;> exact absurd h (by simp)

/-- Reading a record leaves less to read. -/
theorem length_record_lt {c d : Cursor} {r : Record} (h : c.record = .ok (r, d)) :
    d.rest.length < c.rest.length := by
  unfold record at h
  split at h
  · exact absurd h (by simp)
  · next head after hhead =>
    split at h
    · exact absurd h (by simp)
    · next operands final hops =>
      simp only [Except.ok.injEq, Prod.mk.injEq] at h
      obtain ⟨_, rfl⟩ := h
      exact Nat.lt_of_le_of_lt (length_operands_le hops)
        (Nat.lt_of_lt_of_le (length_head_lt hhead) (length_label_le c))

/-! ## §5. Programs. -/

/-- The records from a cursor on, after those read before. -/
def records (c : Cursor) (before : Array Record) : Except SyntaxError Program :=
  if c.skipGap.rest = [] then .ok before.toList
  else
    match _h : c.skipGap.record with
    | .error e => .error e
    | .ok (r, after) => after.records (before.push r)
termination_by c.rest.length
decreasing_by exact Nat.lt_of_lt_of_le (length_record_lt _h) (length_skipGap_le c)

end Cursor

/-- The program that a source text writes.  The name of the text appears in positions only. -/
def Program.parse (file src : Bytes) : Except SyntaxError Program :=
  (Cursor.start file src).records #[]

end Quartet
