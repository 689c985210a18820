/-
  Quartet.Proofs.Access.Parser
  ────────────────────────────
  **THE PARSER STAYS INSIDE ITS TEXT.**

  The parser is written once more over a reader.  Tokens are cut out of the text between two offsets,
  and an error is cut out of it at its own position, which is kept beside the offset.  Errors are
  handed on as failures of any kind (`Checked.Failure`).

  `Checked.Reads` ties what a reader gives to what a cursor gives: the same token and the same place
  after it, or the same error as a diagnostic.  It holds of every operand, head and record, hence of
  whole texts: `Checked.parse_eq`.
-/
import Quartet.Assembly.Diagnostic
import Quartet.Proofs.Access.Reader

namespace Quartet

namespace Checked

/-! ## §1. Failures. -/

/-- An error of any kind, as it is handed on. -/
inductive Failure where
  /-- One diagnostic. -/
  | diagnostic (d : Diagnostic)
  /-- The diagnostics of a pass. -/
  | batch (ds : List Diagnostic)
  /-- Any other error, with its wording. -/
  | other (message : Bytes)

/-- What fails with an error, or else has a result, where no access fails. -/
abbrev Reading (α : Type) : Type := ExceptT Failure Option α

theorem lift_bind {α β : Type} (a : α) (f : α → Reading β) :
    (liftM (some a : Option α) : Reading α) >>= f = f a := rfl

/-! ## §2. The parser over a reader. -/

section

variable (src : Bytes)

/-- Fails with a syntax error.  What follows is cut out of the text at the position. -/
def fail {α : Type} (pos : Position) (p : SyntaxProblem) : Reading α := do
  let remainder ← slice? src pos.offset src.length
  throw (.diagnostic ⟨.syntaxError, pos, p.message, remainder⟩)

/-- A register operand, whose `$` is next. -/
def registerOperand (r : Reader) : Reading (Token × Reader) := do
  let (_, marked) ← r.next src
  let (digits, after) ← marked.run src isAsciiDigit
  if digits = [] then fail src r.pos .registerNumber
  else if 255 < digitsValue (glyphs digits) then fail src r.pos (.registerRange digits)
  else return (.register (UInt8.ofNat (digitsValue (glyphs digits))), after)

/-- The integer that a text of digits writes, with a sign or without. -/
def textValue (text : Bytes) : Int :=
  match glyphs text with
  | [] => 0
  | g :: gs => if g.char = '-' then -(digitsValue gs) else digitsValue (g :: gs)

/-- Takes a minus sign, if one is next. -/
def skipSign (r : Reader) : Option Reader := do
  if ← r.sees src (· = '-') then return (← r.next src).2 else return r

/-- A number operand, whose `#` is next.  Its text is cut out with the sign. -/
def immediateOperand (r : Reader) : Reading (Token × Reader) := do
  let (_, marked) ← r.next src
  let signed ← skipSign src marked
  let (digits, after) ← signed.run src isAsciiDigit
  if digits = [] then fail src r.pos .integer
  else
    let text ← slice? src marked.offset after.offset
    if textValue text < -0x80000000 ∨ 0x80000000 ≤ textValue text then
      fail src r.pos (.integerRange text)
    else return (.immediate (Int32.ofInt (textValue text)), after)

/-- A reference to a label, whose `@` is next. -/
def referenceOperand (r : Reader) : Reading (Token × Reader) := do
  let (_, marked) ← r.next src
  if ← marked.sees src isNameStart then
    let (name, after) ← marked.run src isNamePart
    return (.reference name, after)
  else fail src r.pos .labelName

/-- A text, whose first quotation mark is next.  It is cut out without the second one. -/
def stringOperand (r : Reader) : Reading (Token × Reader) := do
  let (_, marked) ← r.next src
  let (closed, after) ← marked.skipQuoted src
  if closed then
    let text ← slice? src marked.offset (after.offset - 1)
    return (.string text, after)
  else fail src r.pos .unterminatedString

/-- The operand that is next, or none if no operand is. -/
def operand (r : Reader) : Reading (Option (Token × Reader)) := do
  if ← r.sees src (· = '$') then some <$> registerOperand src r
  else if ← r.sees src (· = '#') then some <$> immediateOperand src r
  else if ← r.sees src (· = '@') then some <$> referenceOperand src r
  else if ← r.sees src (· = '\'') then some <$> stringOperand src r
  else return none

/-- The operands that follow, at most `limit` of them. -/
def operands : Nat → Reader → Reading (List Token × Reader)
  | 0, r => return ([], r)
  | limit + 1, r => do
    let gap ← r.skipGap src
    match ← operand src gap with
    | none => return ([], gap)
    | some (t, after) =>
      let (ts, final) ← operands limit after
      return (t :: ts, final)

/-- The label that is next, if there is one, and the place of what it labels. -/
def label (r : Reader) : Option (Option Bytes × Reader) := do
  if ← r.sees src isNameStart then
    let (name, after) ← r.run src isNamePart
    if ← after.sees src (· = ':') then
      let (_, marked) ← after.next src
      return (some name, ← marked.skipGap src)
    else return (none, r)
  else return (none, r)

/-- The head of a record with the given label. -/
def head (label : Option Bytes) (r : Reader) : Reading (Token × Reader) := do
  if ← r.sees src (· = '.') then
    let (_, marked) ← r.next src
    if ← marked.sees src isNameStart then
      let (name, after) ← marked.run src isNamePart
      return (.directive name, after)
    else fail src r.pos .directiveName
  else if ← r.sees src isNameStart then
    let (name, after) ← r.run src isNamePart
    match Opcode.lookup? name with
    | some op => return (.op op.toByte, after)
    | none => fail src r.pos (.unknownMnemonic name)
  else
    match label with
    | some name => fail src r.pos (.nothingAfterLabel name)
    | none => fail src r.pos .noRecord

/-- The record that is next. -/
def record (r : Reader) : Reading (Record × Reader) := do
  let (label, labelled) ← label src r
  let (head, after) ← head src label labelled
  let (operands, final) ← operands src Cursor.maxOperands after
  return (⟨r.pos, label, head, operands⟩, final)

/-- Puts a record after those read before, or ends with an error. -/
def addRecord (before : Array Record) :
    Except Failure (Record × Reader) → Except Failure Program ⊕ Reader × Array Record
  | .error e => .inl (.error e)
  | .ok (next, after) => .inr (after, before.push next)

/-- Reads one record more, unless the text ends. -/
def recordsStep (s : Reader × Array Record) :
    Option (Except Failure Program ⊕ Reader × Array Record) := do
  let r ← s.1.skipGap src
  match ← r.peek src with
  | none => return .inl (.ok s.2.toList)
  | some _ => return addRecord s.2 (← (record src r).run)

/-- The records that follow, after those read before. -/
def records : Reader × Array Record → Option (Except Failure Program) :=
  iterate src (fun s => s.1.offset) (recordsStep src)

end

/-- The program that a source text writes. -/
def parse (file src : Bytes) : Option (Except Failure Program) :=
  records src (⟨0, .start file⟩, #[])

/-! ## §3. Operands. -/

/-- What a cursor gives, as a reader hands it on. -/
def Reading.of {α : Type} (x : Except SyntaxError (α × Cursor)) : Reading (α × Reader) :=
  ExceptT.mk (some (match x with
    | .error e => .error (.diagnostic e.diagnostic)
    | .ok (a, d) => .ok (a, reader d)))

/-- A reader gives what a cursor gives, which moves on from `c`. -/
structure Reads {α : Type} (c : Cursor) (x : Reading (α × Reader))
    (y : Except SyntaxError (α × Cursor)) : Prop where
  /-- They give the same. -/
  value : x = Reading.of y
  /-- The cursor moves on. -/
  leads : ∀ a d, y = .ok (a, d) → Leads c d

section

variable {src : Bytes} {c d : Cursor}

theorem Reads.ok {α : Type} (h : Leads c d) (a : α) :
    Reads c (pure (a, reader d)) (.ok (a, d)) := by
  refine ⟨rfl, ?_⟩
  intro b e heq
  obtain ⟨rfl, rfl⟩ := Prod.mk.inj (Except.ok.inj heq)
  exact h

/-- **An error stands inside the text.** -/
theorem Reads.fail {α : Type} (h : Within src d) (p : SyntaxProblem) :
    Reads c (fail src d.pos p : Reading (α × Reader)) (.error (d.problem p)) := by
  refine ⟨?_, fun _ _ heq => absurd heq (by simp)⟩
  unfold Checked.fail
  rw [h.slice_rest]
  rfl

theorem glyphs_run (h : Within src c) {p : Char → Bool} (hp : p Glyph.replacement = false) :
    glyphs (unread (c.run p)) = c.run p := by
  obtain ⟨before, after, -, -, hbefore⟩ := h
  obtain ⟨hchars, -⟩ := Cursor.run_eq_map_ofChar hbefore hp
  rw [hchars, unread_map_ofChar, glyphs_utf8]

theorem unread_run_eq_nil_iff (h : Within src c) {p : Char → Bool}
    (hp : p Glyph.replacement = false) : unread (c.run p) = [] ↔ c.run p = [] := by
  constructor
  · intro hnil
    rw [← glyphs_run h hp, hnil]
    rfl
  · intro hnil
    rw [hnil]
    rfl

theorem reads_registerOperand (h : Within src c) :
    Reads c (registerOperand src (reader c)) c.registerOperand := by
  have hnext := h.leads (leads_next c)
  unfold registerOperand Cursor.registerOperand
  rw [next_reader h, lift_bind]
  simp only [run_reader hnext, lift_bind, glyphs_run hnext (p := isAsciiDigit) (by decide)]
  by_cases hdigits : c.next.run isAsciiDigit = []
  · rw [if_pos hdigits, if_pos ((unread_run_eq_nil_iff hnext (by decide)).mpr hdigits)]
    exact Reads.fail h _
  · rw [if_neg hdigits,
        if_neg (fun hnil => hdigits ((unread_run_eq_nil_iff hnext (by decide)).mp hnil))]
    by_cases hrange : 255 < digitsValue (c.next.run isAsciiDigit)
    · rw [if_pos hrange, if_pos hrange]
      exact Reads.fail h _
    · rw [if_neg hrange, if_neg hrange]
      exact Reads.ok ((leads_next c).trans (leads_skipRun _ _)) _

theorem skipSign_reader (h : Within src c) : skipSign src (reader c) = some (reader c.skipSign) := by
  unfold skipSign Cursor.skipSign
  rw [sees_reader h, next_reader h]
  cases hat : c.at? (· = '-') with
  | true =>
      have hsign : ¬c.sign = [] := by
        rw [Cursor.sign_eq_nil_iff, hat]
        decide
      rw [if_neg hsign]
      rfl
  | false =>
      rw [if_pos (Cursor.sign_eq_nil_iff.mpr hat)]
      rfl

theorem sign_cases (c : Cursor) :
    c.sign = [] ∨ ∃ g rest, c.rest = g :: rest ∧ g.char = '-' ∧ c.sign = [g] := by
  unfold Cursor.sign
  cases c.rest with
  | nil => exact Or.inl rfl
  | cons g rest =>
      by_cases hg : g.char = '-'
      · exact Or.inr ⟨g, rest, rfl, hg, by simp [hg]⟩
      · exact Or.inl (by simp [hg])

/-- A sign is what it takes to move past it. -/
theorem skipSign_eq (c : Cursor) :
    c.rest = c.sign ++ c.skipSign.rest ∧ c.skipSign.pos = c.sign.foldl Position.advance c.pos := by
  unfold Cursor.skipSign
  rcases sign_cases c with hsign | ⟨g, rest, hrest, -, hsign⟩
  · rw [if_pos hsign, hsign]
    exact ⟨rfl, rfl⟩
  · rw [if_neg (by rw [hsign]; exact List.cons_ne_nil _ _), hsign]
    unfold Cursor.next
    rw [hrest]
    exact ⟨rfl, rfl⟩

theorem leads_skipSign (c : Cursor) : Leads c c.skipSign :=
  ⟨c.sign, (skipSign_eq c).1, (skipSign_eq c).2⟩

/-- A numeral has the same value when it is cut out with its sign. -/
theorem textValue_eq (h : Within src c) (hdigits : c.skipSign.run isAsciiDigit ≠ []) :
    textValue (unread (c.sign ++ c.skipSign.run isAsciiDigit)) =
      Cursor.signedValue c.sign (c.skipSign.run isAsciiDigit) := by
  have hsigned := h.leads (leads_skipSign c)
  have hglyphs := glyphs_run hsigned (p := isAsciiDigit) (by decide)
  unfold textValue Cursor.signedValue
  rcases sign_cases c with hsign | ⟨g, rest, hrest, hg, hsign⟩
  · obtain ⟨d, ds, hrun⟩ := List.exists_cons_of_ne_nil hdigits
    have hdigit : isAsciiDigit d.char = true := by
      obtain ⟨_, _, _, _, hbefore'⟩ := hsigned
      refine (Cursor.read_of_mem_run hbefore' (p := isAsciiDigit) ?_).2
      rw [hrun]
      exact List.mem_cons_self
    have hd : ¬d.char = '-' := by
      intro hminus
      rw [hminus] at hdigit
      exact absurd hdigit (by decide)
    rw [hsign, List.nil_append, hglyphs, hrun]
    simp only [hd, if_false, if_true]
  · have hread : g.Read := h.read_of_mem (by rw [hrest]; exact List.mem_cons_self)
    rw [hsign, List.singleton_append, unread_cons, hread.bytes_of_ascii hg (by decide),
        List.singleton_append, glyphs_asciiByte_cons (by decide), hglyphs]
    simp only [Glyph.ofChar, if_true, List.cons_ne_nil, if_false]

theorem reads_immediateOperand (h : Within src c) :
    Reads c (immediateOperand src (reader c)) c.immediateOperand := by
  have hnext := h.leads (leads_next c)
  have hsigned := hnext.leads (leads_skipSign c.next)
  have hlead := ((leads_next c).trans (leads_skipSign c.next)).trans
    (leads_skipRun c.next.skipSign isAsciiDigit)
  -- the numeral is what lies between the mark and the end of the digits
  have hslice : slice? src (reader c.next).offset
      (reader (c.next.skipSign.skipRun isAsciiDigit)).offset =
      some (unread (c.next.sign ++ c.next.skipSign.run isAsciiDigit)) := by
    refine (hnext.slice (d := c.next.skipSign.skipRun isAsciiDigit) ?_ ?_).2
    · rw [List.append_assoc, (skipSign_eq c.next).1]
      exact congrArg (c.next.sign ++ ·) List.takeWhile_append_dropWhile.symm
    · rw [List.foldl_append, ← (skipSign_eq c.next).2]
      rfl
  unfold immediateOperand Cursor.immediateOperand
  rw [next_reader h, lift_bind]
  simp only [skipSign_reader hnext, run_reader hsigned, lift_bind]
  by_cases hdigits : c.next.skipSign.run isAsciiDigit = []
  · rw [if_pos hdigits, if_pos ((unread_run_eq_nil_iff hsigned (by decide)).mpr hdigits)]
    exact Reads.fail h _
  · rw [if_neg hdigits,
        if_neg (fun hnil => hdigits ((unread_run_eq_nil_iff hsigned (by decide)).mp hnil)), hslice,
        lift_bind, textValue_eq hnext hdigits]
    by_cases hrange :
        Cursor.signedValue c.next.sign (c.next.skipSign.run isAsciiDigit) < -0x80000000 ∨
          0x80000000 ≤ Cursor.signedValue c.next.sign (c.next.skipSign.run isAsciiDigit)
    · rw [if_pos hrange, if_pos hrange]
      exact Reads.fail h _
    · rw [if_neg hrange, if_neg hrange]
      exact Reads.ok hlead _

theorem reads_referenceOperand (h : Within src c) :
    Reads c (referenceOperand src (reader c)) c.referenceOperand := by
  have hnext := h.leads (leads_next c)
  unfold referenceOperand Cursor.referenceOperand
  rw [next_reader h, lift_bind]
  simp only [sees_reader hnext, run_reader hnext, lift_bind]
  by_cases hat : c.next.at? isNameStart = true
  · rw [if_pos hat, if_pos hat]
    exact Reads.ok ((leads_next c).trans (leads_skipRun _ _)) _
  · rw [if_neg hat, if_neg hat]
    exact Reads.fail h _

/-- One byte behind the end of a quoted text there is nothing but its quotation mark. -/
theorem offset_next_quote {c : Cursor} (h : Within src c)
    (hend : (c.skipRun (· ≠ '\'')).rest ≠ []) :
    (c.skipRun (· ≠ '\'')).next.pos.offset = (c.skipRun (· ≠ '\'')).pos.offset + 1 := by
  obtain ⟨g, rest, hrest⟩ := List.exists_cons_of_ne_nil hend
  have hread : g.Read :=
    (h.leads (leads_skipRun c (· ≠ '\''))).read_of_mem (by rw [hrest]; exact List.mem_cons_self)
  have hmark : g.char = '\'' := by
    have hstop := List.head?_dropWhile_not (fun g : Glyph => decide (g.char ≠ '\'')) c.rest
    rw [show c.rest.dropWhile (fun g => decide (g.char ≠ '\'')) = g :: rest from hrest] at hstop
    simpa using hstop
  unfold Cursor.next
  rw [hrest]
  show (Position.advance _ g).offset = _
  rw [offset_advance, hread.bytes_of_ascii hmark (by decide)]
  rfl

theorem reads_stringOperand (h : Within src c) :
    Reads c (stringOperand src (reader c)) c.stringOperand := by
  have hnext := h.leads (leads_next c)
  have hended := leads_skipRun c.next (· ≠ '\'')
  unfold stringOperand Cursor.stringOperand
  rw [next_reader h, lift_bind]
  simp only [skipQuoted_reader (c.next.rest.length + 1) (Nat.lt_succ_self _) hnext, lift_bind]
  by_cases hend : (c.next.skipRun (· ≠ '\'')).rest = []
  · rw [if_pos hend, if_pos hend]
    exact Reads.fail h _
  · have hslice : slice? src (reader c.next).offset
        ((reader (c.next.skipRun (· ≠ '\'')).next).offset - 1) =
        some (unread (c.next.run (· ≠ '\''))) := by
      show slice? src _ ((c.next.skipRun (· ≠ '\'')).next.pos.offset - 1) = _
      rw [offset_next_quote hnext hend, Int.add_sub_cancel]
      exact (hnext.slice List.takeWhile_append_dropWhile.symm rfl).2
    rw [if_neg hend, if_neg hend]
    simp only [if_true, hslice, lift_bind]
    exact Reads.ok (((leads_next c).trans hended).trans (leads_next _)) _

/-- Either no operand is next, or it is read. -/
theorem reads_operand (h : Within src c) :
    c.operand = none ∧ operand src (reader c) = pure none ∨
      ∃ x y, c.operand = some y ∧ operand src (reader c) = some <$> x ∧ Reads c x y := by
  unfold operand Cursor.operand
  simp only [sees_reader h, lift_bind]
  by_cases hregister : c.at? (· = '$') = true
  · rw [if_pos hregister, if_pos hregister]
    exact Or.inr ⟨_, _, rfl, rfl, reads_registerOperand h⟩
  rw [if_neg hregister, if_neg hregister]
  by_cases himmediate : c.at? (· = '#') = true
  · rw [if_pos himmediate, if_pos himmediate]
    exact Or.inr ⟨_, _, rfl, rfl, reads_immediateOperand h⟩
  rw [if_neg himmediate, if_neg himmediate]
  by_cases hreference : c.at? (· = '@') = true
  · rw [if_pos hreference, if_pos hreference]
    exact Or.inr ⟨_, _, rfl, rfl, reads_referenceOperand h⟩
  rw [if_neg hreference, if_neg hreference]
  by_cases hstring : c.at? (· = '\'') = true
  · rw [if_pos hstring, if_pos hstring]
    exact Or.inr ⟨_, _, rfl, rfl, reads_stringOperand h⟩
  rw [if_neg hstring, if_neg hstring]
  exact Or.inl ⟨rfl, rfl⟩

/-! ## §4. Records. -/

theorem Reads.error {α : Type} (e : SyntaxError) :
    Reads c (throw (.diagnostic e.diagnostic) : Reading (α × Reader)) (.error e) :=
  ⟨rfl, fun _ _ heq => absurd heq (by simp)⟩

theorem reads_operands (limit : Nat) : ∀ {c : Cursor}, Within src c →
    Reads c (operands src limit (reader c)) (Cursor.operands limit c) := by
  induction limit with
  | zero => exact fun _ => Reads.ok (Leads.refl _) _
  | succ limit ih =>
      intro c h
      unfold operands Cursor.operands
      rw [skipGap_reader h, lift_bind]
      rcases reads_operand h.skipGap with ⟨hnone, hread⟩ | ⟨x, y, hsome, hread, hx⟩
      · rw [hnone, hread]
        exact Reads.ok h.leads_skipGap _
      · rw [hsome, hread, hx.value]
        cases y with
        | error e => exact Reads.error e
        | ok pair =>
            obtain ⟨t, d⟩ := pair
            have hlead := h.leads_skipGap.trans (hx.leads t d rfl)
            have hrest := ih (h.leads hlead)
            show Reads c (operands src limit (reader d) >>= _) _
            rw [hrest.value]
            cases hops : Cursor.operands limit d with
            | error e =>
                simp only [hops]
                exact Reads.error e
            | ok pair =>
                obtain ⟨ts, final⟩ := pair
                simp only [hops]
                exact Reads.ok (hlead.trans (hrest.leads ts final hops)) _

theorem label_reader (h : Within src c) :
    label src (reader c) = some (c.label.1, reader c.label.2) ∧ Leads c c.label.2 := by
  have hname : Within src c.skipName := h.leads (leads_skipRun c isNamePart)
  unfold label Cursor.label
  rw [sees_reader h, run_reader h]
  cases hat : c.at? isNameStart with
  | false => exact ⟨rfl, Leads.refl c⟩
  | true =>
      cases hcolon : c.skipName.at? (· = ':') with
      | false =>
          refine ⟨?_, Leads.refl c⟩
          show ((reader c.skipName).sees src (· = ':') >>= _) = _
          rw [sees_reader hname, hcolon]
          rfl
      | true =>
          have hmarked := hname.leads (leads_next c.skipName)
          refine ⟨?_, ((leads_skipRun c isNamePart).trans (leads_next _)).trans
            hmarked.leads_skipGap⟩
          show ((reader c.skipName).sees src (· = ':') >>= _) = _
          rw [sees_reader hname, hcolon]
          show ((reader c.skipName).next src >>= _) = _
          rw [next_reader hname]
          show ((reader c.skipName.next).skipGap src >>= _) = _
          rw [skipGap_reader hmarked]
          rfl

theorem reads_head (h : Within src c) (label : Option Bytes) :
    Reads c (head src label (reader c)) (Cursor.head label c) := by
  have hnext := h.leads (leads_next c)
  unfold head Cursor.head
  simp only [sees_reader h, next_reader h, sees_reader hnext, run_reader hnext, run_reader h,
    lift_bind]
  by_cases hdot : c.at? (· = '.') = true
  · rw [if_pos hdot, if_pos hdot]
    by_cases hname : c.next.at? isNameStart = true
    · rw [if_pos hname, if_pos hname]
      exact Reads.ok ((leads_next c).trans (leads_skipRun _ _)) _
    · rw [if_neg hname, if_neg hname]
      exact Reads.fail h _
  · rw [if_neg hdot, if_neg hdot]
    by_cases hname : c.at? isNameStart = true
    · rw [if_pos hname, if_pos hname]
      rw [show c.name = unread (c.run isNamePart) from rfl]
      cases Opcode.lookup? (unread (c.run isNamePart)) with
      | some op => exact Reads.ok (leads_skipRun _ _) _
      | none => exact Reads.fail h _
    · rw [if_neg hname, if_neg hname]
      cases label with
      | some name => exact Reads.fail h _
      | none => exact Reads.fail h _

/-- **A record is read as the cursor reads it.** -/
theorem reads_record (h : Within src c) : Reads c (record src (reader c)) c.record := by
  obtain ⟨hlabel, hlabelled⟩ := label_reader h
  have hhead := reads_head (h.leads hlabelled) c.label.1
  unfold record Cursor.record
  rw [hlabel, lift_bind]
  show Reads c (head src c.label.1 (reader c.label.2) >>= _) _
  rw [hhead.value]
  cases hread : Cursor.head c.label.1 c.label.2 with
  | error e =>
      exact Reads.error e
  | ok pair =>
      obtain ⟨t, after⟩ := pair
      have hlead := hlabelled.trans (hhead.leads t after hread)
      have hrest := reads_operands Cursor.maxOperands (h.leads hlead)
      dsimp only
      show Reads c (operands src Cursor.maxOperands (reader after) >>= _) _
      rw [hrest.value]
      cases hops : Cursor.operands Cursor.maxOperands after with
      | error e =>
          exact Reads.error e
      | ok pair =>
          obtain ⟨ts, final⟩ := pair
          exact Reads.ok (hlead.trans (hrest.leads ts final hops)) _

/-! ## §5. Programs. -/

theorem recordsStep_of_end (h : Within src c) (hend : c.skipGap.rest = []) (before : Array Record) :
    recordsStep src (reader c, before) = some (.inl (.ok before.toList)) := by
  unfold recordsStep
  rw [skipGap_reader h]
  show ((reader c.skipGap).peek src >>= _) = _
  rw [peek_reader h.skipGap, hend]
  rfl

theorem recordsStep_of_ne_nil (h : Within src c) (hne : c.skipGap.rest ≠ [])
    (before : Array Record) :
    recordsStep src (reader c, before) =
      (Reading.of c.skipGap.record).run.map (addRecord before) := by
  obtain ⟨g, rest, hrest⟩ := List.exists_cons_of_ne_nil hne
  unfold recordsStep
  rw [skipGap_reader h]
  show ((reader c.skipGap).peek src >>= _) = _
  rw [peek_reader h.skipGap, hrest]
  show ((record src (reader c.skipGap)).run >>= _) = _
  rw [(reads_record h.skipGap).value]
  rfl

theorem records_reader (n : Nat) : ∀ {c : Cursor} (before : Array Record), c.rest.length < n →
    Within src c →
    records src (reader c, before) =
      some ((c.records before).mapError fun e => .diagnostic e.diagnostic) := by
  induction n with
  | zero => exact fun _ hn => absurd hn (Nat.not_lt_zero _)
  | succ n ih =>
      intro c before hn h
      unfold records
      rw [Cursor.records]
      by_cases hend : c.skipGap.rest = []
      · rw [if_pos hend]
        exact iterate_of_inl (recordsStep_of_end h hend before)
      · rw [if_neg hend]
        split
        · next e hrecord =>
          refine iterate_of_inl ?_
          rw [recordsStep_of_ne_nil h hend, hrecord]
          rfl
        · next r after hrecord =>
          -- a record is never empty, so the reader has moved on
          have hlead := h.leads_skipGap.trans ((reads_record h.skipGap).leads r after hrecord)
          have hlt : after.rest.length < c.rest.length :=
            Nat.lt_of_lt_of_le (Cursor.length_record_lt hrecord) (Cursor.length_skipGap_le c)
          have hafter := h.leads hlead
          have hstep : recordsStep src (reader c, before) =
              some (.inr (reader after, before.push r)) := by
            rw [recordsStep_of_ne_nil h hend, hrecord]
            rfl
          rw [iterate_of_inr hstep (h.offset_lt hlead hlt) hafter.offset_le]
          exact ih (before.push r) (by omega) hafter

theorem within_start (file src : Bytes) : Within src (.start file src) :=
  ⟨[], src, rfl, rfl, rfl⟩

end

/-- **Parsing never reaches outside the text**, and all its errors are diagnostics. -/
theorem parse_eq (file src : Bytes) :
    parse file src = some ((Program.parse file src).mapError fun e => .diagnostic e.diagnostic) :=
  records_reader _ #[] (Nat.lt_succ_self _) (within_start file src)

end Checked

end Quartet
