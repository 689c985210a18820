/-
  Quartet.Proofs.Source.Joining
  ─────────────────────────────
  **TWO TEXTS ON LINES OF THEIR OWN.**

  Of two programs with a newline between their texts neither changes how the other is read.  The first
  stands in the frame of what follows it, the second in the frame of what stands before it, which moves
  its positions by whole lines:

    • `Frame.line`, `Frame.behind` — the two frames,
    • `Program.pos_of_readsOn` — the place where the first text ends,
    • `parse_joined` — hence the program of both.
-/
import Quartet.Proofs.Source.Frames
import Quartet.Proofs.Source.Places

namespace Quartet

/-! ## §1. Before another program. -/

/-- A newline belongs to the gap before the next token. -/
theorem Cursor.skipGap_newline (pos : Position) (gs : List Glyph) :
    Cursor.skipGap ⟨pos, Glyph.ofChar '\n' :: gs⟩ =
      Cursor.skipGap ⟨pos.advance (Glyph.ofChar '\n'), gs⟩ := by
  let c : Cursor := ⟨pos, Glyph.ofChar '\n' :: gs⟩
  have hsemi : c.at? (· = ';') = false := rfl
  have hblank : c.at? isBlank = true := by
    show isBlank '\n' = true
    decide
  exact (Cursor.skipGap_of_at?_blank hsemi hblank).symm

/-- A program does not begin with an operand. -/
theorem Program.Writes.operand_eq_none {q : Program} {src : Bytes} (h : q.Writes src) {c : Cursor}
    (hc : c.Before src) : c.skipGap.operand = none := by
  obtain ⟨src', hsrc', hopened⟩ := Cursor.opened_skipGap hc h.2
  exact Cursor.operand_eq_none hsrc' hopened (Cursor.isOperand_head?_tokens h.1)

/-- The frame of a text that is followed by a program on a line of its own, after some of its last
glyphs are cut off. -/
def Frame.line (cut : Nat) {q : Program} {src : Bytes} (h : q.Writes src) : Frame where
  move := id
  cut := cut
  tail := Glyph.ofChar '\n' :: glyphs src
  move_advance _ _ := rfl
  tail_newline g hg := by
    obtain rfl : Glyph.ofChar '\n' = g := Option.some.inj hg
    rfl
  tail_operand pos := by
    rw [Cursor.skipGap_newline]
    exact h.operand_eq_none rfl

theorem Frame.map_record_line (cut : Nat) {q : Program} {src : Bytes} (h : q.Writes src)
    (p : List Record) : p.map (Frame.line cut h).record = p :=
  List.map_id p

/-- Text that is followed by a newline is read before it as on its own. -/
theorem glyphs_append_newline (a b : Bytes) :
    glyphs (a ++ asciiByte '\n' :: b) = glyphs a ++ Glyph.ofChar '\n' :: glyphs b := by
  rw [glyphs_append_ascii a (by decide), glyphs_asciiByte_cons (by decide)]

/-! ## §2. Behind other text. -/

/-- A position after more bytes and lines, in the same column. -/
def Position.shift (p : Position) (bytes lines : Int) : Position :=
  { p with offset := p.offset + bytes, line := p.line + lines }

/-- A record after more bytes and lines. -/
def Record.shift (r : Record) (bytes lines : Int) : Record :=
  { r with pos := r.pos.shift bytes lines }

theorem Position.shift_advance (p : Position) (g : Glyph) (bytes lines : Int) :
    (p.advance g).shift bytes lines = (p.shift bytes lines).advance g := by
  unfold Position.advance Position.shift
  split
  · simp only [Int.add_right_comm]
  · simp only [Int.add_right_comm]

/-- The frame of a text that stands behind other text. -/
def Frame.behind (bytes lines : Int) : Frame where
  move p := p.shift bytes lines
  cut := 0
  tail := []
  move_advance p g := p.shift_advance g bytes lines
  tail_newline g hg := absurd hg (by simp)
  tail_operand _ := rfl

/-- A text in whose frame nothing follows is read to its end there, too. -/
theorem Frame.records_behind {c d : Cursor} {q : List Record} (h : Cursor.ReadsOn c q d)
    (hend : d.skipGap.rest = []) (bytes lines : Int) (before : Array Record) :
    ((Frame.behind bytes lines).cursor c).records before =
      .ok (before.toList ++ q.map fun r => r.shift bytes lines) := by
  let F := Frame.behind bytes lines
  have hend' : (F.cursor d).skipGap.rest = [] := by
    rw [F.skipGap_cursor (Nat.zero_le _)]
    unfold Frame.cursor
    rw [F.rest_of_length (by rw [hend]; rfl)]
    rfl
  rw [F.records_cursor h (Nat.zero_le _), Cursor.records, if_pos hend', Array.toList_append]
  rfl

/-! ## §3. Both. -/

/-- A text that is read to its end ends at the place that is counted from all its bytes. -/
theorem Program.pos_of_readsOn {file src : Bytes} {p : List Record} {d : Cursor}
    (h : Cursor.ReadsOn (Cursor.start file src) p d) (hend : d.skipGap.rest = []) :
    d.skipGap.pos = placeAt file src src.length := by
  have hd := h.leads (Checked.within_start file src)
  have hlead := hd.trans ((Checked.within_start file src).leads hd).leads_skipGap
  obtain ⟨offset, hle, hpos, hbefore⟩ := hlead.eq_placeAt
  have hdrop : src.drop offset = [] := hbefore.eq_nil hend
  have hlen : src.length ≤ offset := List.drop_eq_nil_iff.mp hdrop
  rw [hpos, Nat.le_antisymm hle hlen]

/-- The line after a text begins where the text says, by its bytes and its newlines. -/
theorem placeAt_length_newline (file src : Bytes) :
    (placeAt file src src.length).advance (Glyph.ofChar '\n') =
      (Position.start file).shift (src.length + 1) (1 + src.count (asciiByte '\n')) := by
  unfold placeAt
  rw [List.take_length]
  show (⟨file, (src.length : Int) + 1, 1 + (src.count (asciiByte '\n') : Int) + 1, 1⟩ : Position) =
    ⟨file, 0 + ((src.length : Int) + 1), 1 + (1 + (src.count (asciiByte '\n') : Int)), 1⟩
  rw [Int.zero_add, Int.add_comm (1 + _) 1]

/-- **Parsing goes line by line.**  If two texts are parsed, so is the first with a newline and the
second behind it: as the records of the first, then those of the second, which stand further on by the
bytes of the first and its newline, and by its lines. -/
theorem parse_joined {file a b : Bytes} {p q : Program} (ha : Program.parse file a = .ok p)
    (hb : Program.parse file b = .ok q) :
    Program.parse file (a ++ asciiByte '\n' :: b) =
      .ok (p ++ q.map fun r => r.shift (a.length + 1) (1 + a.count (asciiByte '\n'))) := by
  obtain ⟨d, hreads, hend⟩ := Program.readsOn_of_parse ha
  obtain ⟨d', hreads', hend'⟩ := Program.readsOn_of_parse hb
  let F := Frame.line 0 (Program.writes_of_parse hb)
  let G := Frame.behind (a.length + 1) (1 + a.count (asciiByte '\n'))
  have hwhole : Cursor.start file (a ++ asciiByte '\n' :: b) = F.cursor (Cursor.start file a) := by
    unfold Cursor.start
    rw [glyphs_append_newline]
    show _ = (⟨Position.start file, (glyphs a).take (glyphs a).length ++ F.tail⟩ : Cursor)
    rw [List.take_length]
    rfl
  -- after the first text and the newline, reading goes on at the start of the second one
  have hnext : (F.cursor d).skipGap = (G.cursor (Cursor.start file b)).skipGap := by
    rw [F.skipGap_cursor (Nat.zero_le _)]
    unfold Frame.cursor
    rw [F.rest_of_length (by rw [hend]; rfl), Program.pos_of_readsOn hreads hend]
    show Cursor.skipGap ⟨placeAt file a a.length, Glyph.ofChar '\n' :: glyphs b⟩ = _
    rw [Cursor.skipGap_newline, placeAt_length_newline]
    show _ = Cursor.skipGap ⟨_, (glyphs b).take (glyphs b).length ++ []⟩
    rw [List.take_length, List.append_nil]
    rfl
  calc Program.parse file (a ++ asciiByte '\n' :: b)
      = (F.cursor (Cursor.start file a)).records #[] := congrArg (Cursor.records · #[]) hwhole
    _ = (F.cursor d).records (#[] ++ (p.map F.record).toArray) :=
        F.records_cursor hreads (Nat.zero_le _) #[]
    _ = (F.cursor d).records p.toArray := by rw [Frame.map_record_line, Array.empty_append]
    _ = (G.cursor (Cursor.start file b)).records p.toArray := Cursor.records_of_skipGap_eq hnext _
    _ = .ok (p ++ q.map fun r => r.shift (a.length + 1) (1 + a.count (asciiByte '\n'))) :=
        Frame.records_behind hreads' hend' _ _ _

/-- Two lines, the second of which ends in a comment with a letter of two bytes and a stray byte. -/
def joinedSample : Bytes := ascii "hlt\n .d 'x'; " ++ [0xC3, 0xA9, 0xFF]

theorem parse_joined_sample :
    Program.parse [] joinedSample = .ok
      [⟨⟨[], 0, 1, 1⟩, none, .op Opcode.hlt.toByte, []⟩,
       ⟨⟨[], 5, 2, 2⟩, none, .directive (ascii "d"), [.string (ascii "x")]⟩] ∧
    Program.parse [] (ascii "\t l: inc $1") = .ok
      [⟨⟨[], 2, 1, 3⟩, some (ascii "l"), .op Opcode.inc.toByte, [.register 1]⟩] ∧
    Program.parse [] (joinedSample ++ asciiByte '\n' :: ascii "\t l: inc $1") = .ok
      [⟨⟨[], 0, 1, 1⟩, none, .op Opcode.hlt.toByte, []⟩,
       ⟨⟨[], 5, 2, 2⟩, none, .directive (ascii "d"), [.string (ascii "x")]⟩,
       ⟨⟨[], 19, 3, 3⟩, some (ascii "l"), .op Opcode.inc.toByte, [.register 1]⟩] := by
  have ha : Program.parse [] joinedSample = .ok
      [⟨⟨[], 0, 1, 1⟩, none, .op Opcode.hlt.toByte, []⟩,
       ⟨⟨[], 5, 2, 2⟩, none, .directive (ascii "d"), [.string (ascii "x")]⟩] := by
    decide +kernel
  have hb : Program.parse [] (ascii "\t l: inc $1") = .ok
      [⟨⟨[], 2, 1, 3⟩, some (ascii "l"), .op Opcode.inc.toByte, [.register 1]⟩] := by
    decide +kernel
  exact ⟨ha, hb, parse_joined ha hb⟩

end Quartet
