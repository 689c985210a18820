/-
  Quartet.Source.Cursor
  ─────────────────────
  **READING ALONG A TEXT.**

  A position counts bytes from the start of the text, lines from 1 and, within a line, code points
  from 1.  A line number of 0 or less marks something that comes from no place in a text.

  A cursor is a position together with the glyphs that follow it.  Every way to move it keeps the
  two in step and never adds glyphs.

  What the definitions stand for: `Position` for `Position`, `Cursor` for the place of a `parser`,
  `Cursor.at?` for a look at `parser.peek`, `Cursor.next` for `parser.next` and `Cursor.skipGap` for
  `parser.skipSpace`.
-/
import Quartet.Text.Characters

namespace Quartet

/-! ## §1. Places in a source text. -/

/-- A place in a source text. -/
structure Position where
  /-- The name of the text. -/
  file : Bytes := []
  /-- The number of bytes before it. -/
  offset : Int := 0
  /-- The line, counted from 1. -/
  line : Int := 0
  /-- The code point in its line, counted from 1. -/
  column : Int := 0
deriving DecidableEq, Repr

namespace Position

/-- The place where a text begins. -/
def start (file : Bytes) : Position := ⟨file, 0, 1, 1⟩

/-- The place after one more glyph. -/
def advance (p : Position) (g : Glyph) : Position :=
  if g.char = '\n' then
    { p with offset := p.offset + g.bytes.length, line := p.line + 1, column := 1 }
  else { p with offset := p.offset + g.bytes.length, column := p.column + 1 }

/-- Whether it is a place in a text. -/
def isValid (p : Position) : Bool := 0 < p.line

/-- A position as text: the name, and line and column if it is a place. -/
def text (p : Position) : Bytes :=
  (if p.file = [] then ascii "<input>" else p.file)
    ++ (if p.isValid then ascii ":" ++ decimal p.line ++ ascii ":" ++ decimal p.column else [])

end Position

/-! ## §2. Cursors. -/

/-- A place in a text and what follows it. -/
structure Cursor where
  /-- The place. -/
  pos : Position
  /-- What follows. -/
  rest : List Glyph
deriving DecidableEq, Repr

namespace Cursor

/-- The start of a text. -/
def start (file src : Bytes) : Cursor := ⟨.start file, glyphs src⟩

/-- Whether the next glyph has a property. -/
def at? (c : Cursor) (p : Char → Bool) : Bool :=
  match c.rest with
  | [] => false
  | g :: _ => p g.char

/-- Moves past the next glyph, if there is one. -/
def next (c : Cursor) : Cursor :=
  match c.rest with
  | [] => c
  | g :: rest => ⟨c.pos.advance g, rest⟩

/-- The glyphs from here on that have a property, up to the first that has not. -/
def run (c : Cursor) (p : Char → Bool) : List Glyph := c.rest.takeWhile fun g => p g.char

/-- Moves past the glyphs that have a property, up to the first that has not. -/
def skipRun (c : Cursor) (p : Char → Bool) : Cursor :=
  ⟨(c.run p).foldl Position.advance c.pos, c.rest.dropWhile fun g => p g.char⟩

/-- Moves past white space and comments.  A comment starts with a semicolon and ends with its
line. -/
def skipGap (c : Cursor) : Cursor :=
  go false c.pos c.rest
where
  /-- Moves on inside a comment or between comments. -/
  go (comment : Bool) (pos : Position) : List Glyph → Cursor
    | [] => ⟨pos, []⟩
    | g :: rest =>
      if comment then go (g.char ≠ '\n') (pos.advance g) rest
      else if g.char = ';' then go true (pos.advance g) rest
      else if g.isBlank then go false (pos.advance g) rest
      else ⟨pos, g :: rest⟩

/-! ## §3. No way to move adds glyphs. -/

theorem length_next_le (c : Cursor) : c.next.rest.length ≤ c.rest.length := by
  unfold next
  split
  · exact Nat.le_refl _
  · simp_all

theorem length_next_lt {c : Cursor} {p : Char → Bool} (h : c.at? p = true) :
    c.next.rest.length < c.rest.length := by
  unfold at? at h
  unfold next
  split at h
  · exact absurd h (by decide)
  · simp_all

theorem length_skipRun_le (c : Cursor) (p : Char → Bool) :
    (c.skipRun p).rest.length ≤ c.rest.length :=
  (List.dropWhile_suffix _).length_le

theorem length_skipRun_lt {c : Cursor} {p : Char → Bool} (h : c.at? p = true) :
    (c.skipRun p).rest.length < c.rest.length := by
  unfold at? at h
  unfold skipRun
  split at h
  · exact absurd h (by decide)
  · next g rest heq =>
    simp only [heq, List.dropWhile_cons, h, if_true, List.length_cons]
    exact Nat.lt_succ_of_le (List.dropWhile_suffix _).length_le

theorem length_skipGap_go_le (comment : Bool) (pos : Position) (gs : List Glyph) :
    (skipGap.go comment pos gs).rest.length ≤ gs.length := by
  induction gs generalizing comment pos with
  | nil => exact Nat.le_refl _
  | cons g rest ih =>
    unfold skipGap.go
    repeat' split
    all_goals first
      | exact Nat.le_refl _
      | exact Nat.le_succ_of_le (ih _ _)

theorem length_skipGap_le (c : Cursor) : c.skipGap.rest.length ≤ c.rest.length :=
  length_skipGap_go_le false c.pos c.rest

/-! ## §4. Where a cursor stays. -/

section Moves

variable {c : Cursor}

theorem skipRun_of_at? {p : Char → Bool} (hat : c.at? p = true) :
    c.next.skipRun p = c.skipRun p := by
  obtain ⟨pos, rest⟩ := c
  cases rest with
  | nil => exact absurd hat Bool.false_ne_true
  | cons g rest =>
      have hg : p g.char = true := hat
      unfold next skipRun run
      simp only [List.takeWhile_cons, List.dropWhile_cons, hg, if_true, List.foldl_cons]

theorem skipRun_of_not_at? {p : Char → Bool} (hat : c.at? p = false) : c.skipRun p = c := by
  obtain ⟨pos, rest⟩ := c
  cases rest with
  | nil => rfl
  | cons g rest =>
      have hg : p g.char = false := hat
      unfold skipRun run
      simp only [List.takeWhile_cons, List.dropWhile_cons, hg, Bool.false_eq_true, if_false,
        List.foldl_nil]

theorem skipGap_go_true_cons (pos : Position) (g : Glyph) (rest : List Glyph) :
    skipGap.go true pos (g :: rest) =
      skipGap.go (g.char ≠ '\n') (pos.advance g) rest :=
  if_pos rfl

theorem skipGap_go_cons (pos : Position) (g : Glyph) (rest : List Glyph) :
    skipGap.go false pos (g :: rest) =
      if g.char = ';' then skipGap.go true (pos.advance g) rest
      else if g.isBlank then skipGap.go false (pos.advance g) rest
      else ⟨pos, g :: rest⟩ :=
  if_neg Bool.false_ne_true

theorem skipGap_of_at?_semicolon (hat : c.at? (· = ';') = true) :
    skipGap.go true c.pos c.rest = c.skipGap := by
  obtain ⟨pos, rest⟩ := c
  cases rest with
  | nil => exact absurd hat Bool.false_ne_true
  | cons g rest =>
      have hg : g.char = ';' := of_decide_eq_true hat
      have hline : g.char ≠ '\n' := by rw [hg]; decide
      show _ = skipGap.go false pos (g :: rest)
      rw [skipGap_go_true_cons, decide_eq_true hline, skipGap_go_cons, if_pos hg]

theorem skipGap_of_at?_blank (hat : c.at? (· = ';') = false) (hblank : c.at? isBlank = true) :
    c.next.skipGap = c.skipGap := by
  obtain ⟨pos, rest⟩ := c
  cases rest with
  | nil => exact absurd hblank Bool.false_ne_true
  | cons g rest =>
      have hg : ¬g.char = ';' := of_decide_eq_false hat
      show _ = skipGap.go false pos (g :: rest)
      rw [skipGap_go_cons, if_neg hg, if_pos (show g.isBlank = true from hblank)]
      rfl

theorem skipGap_of_not_at? (hat : c.at? (· = ';') = false) (hblank : c.at? isBlank = false) :
    c.skipGap = c := by
  obtain ⟨pos, rest⟩ := c
  cases rest with
  | nil => rfl
  | cons g rest =>
      have hg : ¬g.char = ';' := of_decide_eq_false hat
      have hb : ¬g.isBlank = true := by
        rw [show g.isBlank = false from hblank]
        exact Bool.false_ne_true
      show skipGap.go false pos (g :: rest) = _
      rw [skipGap_go_cons, if_neg hg, if_neg hb]

end Moves

end Cursor

end Quartet
