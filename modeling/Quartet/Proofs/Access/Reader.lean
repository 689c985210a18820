/-
  Quartet.Proofs.Access.Reader
  ────────────────────────────
  **A READER STAYS INSIDE ITS TEXT.**

  A cursor carries what follows it, so that it cannot look outside its text.  A reader has an offset
  only and takes everything by slicing the text:

    • `Checked.slice?` — a slice between offsets that are out of order or outside fails,
    • `Checked.iterate` — so does a loop that does not move on.

  A reader at a cursor (`Checked.reader`) takes glyphs, runs of them, white space, comments and quoted
  texts as the cursor does, as long as the two stand at the same place of the text
  (`Checked.Within`).  This is kept wherever a cursor leads (`Checked.Leads`).
-/
import Quartet.Proofs.Source.Soundness

namespace Quartet

namespace Checked

/-! ## §1. Slices and loops. -/

/-- The bytes from one offset to another, which must be inside and in order. -/
def slice? (bs : Bytes) (start stop : Int) : Option Bytes :=
  if 0 ≤ start ∧ start ≤ stop ∧ stop ≤ bs.length then
    some ((bs.take stop.toNat).drop start.toNat)
  else none

theorem slice?_append (a b c : Bytes) :
    slice? (a ++ (b ++ c)) a.length ((a.length : Int) + b.length) = some b := by
  unfold slice?
  rw [if_pos (by simp only [List.length_append]; omega), ← Int.natCast_add, Int.toNat_natCast,
      Int.toNat_natCast, ← List.append_assoc, ← List.length_append, List.take_left, List.drop_left]

theorem slice?_append_right (a b : Bytes) :
    slice? (a ++ b) a.length (a ++ b).length = some b := by
  have hcut := slice?_append a b []
  rw [List.append_nil, ← Int.natCast_add, ← List.length_append] at hcut
  exact hcut

/-- Repeats a step until it gives a result.  Each time it must move on in a text and stay inside. -/
def iterate {σ α : Type} (src : Bytes) (offset : σ → Int) (step : σ → Option (α ⊕ σ)) (s : σ) :
    Option α :=
  match step s with
  | none => none
  | some (.inl a) => some a
  | some (.inr t) =>
    if offset s < offset t ∧ offset t ≤ src.length then iterate src offset step t else none
termination_by (src.length - offset s).toNat
decreasing_by omega

section

variable {σ α : Type} {src : Bytes} {offset : σ → Int} {step : σ → Option (α ⊕ σ)} {s t : σ} {a : α}

theorem iterate_of_inl (h : step s = some (.inl a)) : iterate src offset step s = some a := by
  rw [iterate, h]

theorem iterate_of_inr (h : step s = some (.inr t)) (hlt : offset s < offset t)
    (hle : offset t ≤ src.length) : iterate src offset step s = iterate src offset step t := by
  rw [iterate, h]
  exact if_pos ⟨hlt, hle⟩

end

/-! ## §2. Readers. -/

/-- A place in a text: the offset reached, and beside it a position. -/
structure Reader where
  /-- The offset. -/
  offset : Int
  /-- The position. -/
  pos : Position

namespace Reader

/-- The reader after a glyph; the offset of its position is set to its own. -/
def past (r : Reader) (g : Glyph) : Reader :=
  ⟨r.offset + g.bytes.length, { r.pos.advance g with offset := r.offset + g.bytes.length }⟩

variable (src : Bytes)

/-- The next glyph, if the text does not end here. -/
def peek (r : Reader) : Option (Option Glyph) :=
  if src.length ≤ r.offset then return none
  else do
    let rest ← slice? src r.offset src.length
    return (glyphs rest).head?

/-- Whether the next glyph has a property. -/
def sees (p : Char → Bool) (r : Reader) : Option Bool := do
  match ← r.peek src with
  | none => return false
  | some g => return p g.char

/-- Takes the next glyph, if the text does not end here. -/
def next (r : Reader) : Option (Option Glyph × Reader) :=
  if src.length ≤ r.offset then return (none, r)
  else do
    let rest ← slice? src r.offset src.length
    match (glyphs rest).head? with
    | none => return (none, r)
    | some g => return (some g, r.past g)

/-- Takes the glyphs that have a property, up to the first that has not. -/
def skipRun (p : Char → Bool) : Reader → Option Reader :=
  iterate src offset fun r => do
    if ← r.sees src p then return .inr (← r.next src).2 else return .inl r

/-- The text of the glyphs that have a property, up to the first that has not. -/
def run (p : Char → Bool) (r : Reader) : Option (Bytes × Reader) := do
  let after ← r.skipRun src p
  let text ← slice? src r.offset after.offset
  return (text, after)

/-- Takes glyphs up to the end of the line. -/
def skipLine : Reader → Option Reader :=
  iterate src offset fun r => do
    match ← r.next src with
    | (none, after) => return .inl after
    | (some g, after) => if g.char = '\n' then return .inl after else return .inr after

/-- Takes white space and comments. -/
def skipGap : Reader → Option Reader :=
  iterate src offset fun r => do
    if ← r.sees src (· = ';') then return .inr (← r.skipLine src)
    else if ← r.sees src isBlank then return .inr (← r.next src).2
    else return .inl r

/-- Takes glyphs up to a quotation mark and the mark itself; the flag tells whether there is one. -/
def skipQuoted : Reader → Option (Bool × Reader) :=
  iterate src offset fun r => do
    match ← r.next src with
    | (none, after) => return .inl (false, after)
    | (some g, after) => if g.char = '\'' then return .inl (true, after) else return .inr after

end Reader

/-! ## §3. A reader at a cursor. -/

/-- The reader at a cursor. -/
def reader (c : Cursor) : Reader := ⟨c.pos.offset, c.pos⟩

/-- The cursor stands in the text, at the offset of its position. -/
def Within (src : Bytes) (c : Cursor) : Prop :=
  ∃ before after, src = before ++ after ∧ c.pos.offset = before.length ∧ c.Before after

/-- One cursor stands further on than another, past some glyphs. -/
def Leads (c d : Cursor) : Prop :=
  ∃ gs, c.rest = gs ++ d.rest ∧ d.pos = gs.foldl Position.advance c.pos

theorem Leads.refl (c : Cursor) : Leads c c := ⟨[], rfl, rfl⟩

theorem Leads.trans {c d e : Cursor} (h : Leads c d) (h' : Leads d e) : Leads c e := by
  obtain ⟨gs, hrest, hpos⟩ := h
  obtain ⟨hs, hrest', hpos'⟩ := h'
  refine ⟨gs ++ hs, ?_, ?_⟩
  · rw [hrest, hrest', List.append_assoc]
  · rw [hpos', hpos, List.foldl_append]

theorem Leads.length_le {c d : Cursor} (h : Leads c d) : d.rest.length ≤ c.rest.length := by
  obtain ⟨gs, hrest, -⟩ := h
  rw [hrest, List.length_append]
  omega

theorem offset_advance (p : Position) (g : Glyph) :
    (p.advance g).offset = p.offset + g.bytes.length := by
  unfold Position.advance
  split <;> rfl

theorem offset_foldl_advance (gs : List Glyph) :
    ∀ p : Position, (gs.foldl Position.advance p).offset = p.offset + (unread gs).length := by
  induction gs with
  | nil => intro p; simp
  | cons g gs ih =>
      intro p
      rw [List.foldl_cons, ih, offset_advance, unread_cons, List.length_append]
      omega

/-- What a cursor moves past can be cut out of the text. -/
theorem Within.slice {src : Bytes} {c d : Cursor} (h : Within src c) {gs : List Glyph}
    (hrest : c.rest = gs ++ d.rest) (hpos : d.pos = gs.foldl Position.advance c.pos) :
    Within src d ∧ slice? src c.pos.offset d.pos.offset = some (unread gs) := by
  obtain ⟨before, after, rfl, hoffset, hbefore⟩ := h
  obtain ⟨hafter, hglyphs⟩ := glyphs_eq_append (hbefore.symm.trans hrest)
  have hnew : d.pos.offset = before.length + (unread gs).length := by
    rw [hpos, offset_foldl_advance, hoffset]
  refine ⟨⟨before ++ unread gs, unread d.rest, ?_, ?_, hglyphs.symm⟩, ?_⟩
  · rw [hafter, List.append_assoc]
  · rw [hnew, List.length_append]
    rfl
  · rw [hnew, hoffset, hafter]
    exact slice?_append before (unread gs) (unread d.rest)

section

variable {src : Bytes} {c d : Cursor}

theorem Within.leads (h : Within src c) (hlead : Leads c d) : Within src d := by
  obtain ⟨gs, hrest, hpos⟩ := hlead
  exact (h.slice hrest hpos).1

/-- The rest of the text from a cursor on can be cut out of the text. -/
theorem Within.slice_rest (h : Within src c) :
    slice? src c.pos.offset src.length = some (unread c.rest) := by
  obtain ⟨before, after, rfl, hoffset, hbefore⟩ := h
  rw [hoffset, slice?_append_right, show c.rest = glyphs after from hbefore, unread_glyphs]

/-- Cursors at which there is something left to read are before the end. -/
theorem Within.length_le_iff (h : Within src c) : src.length ≤ c.pos.offset ↔ c.rest = [] := by
  obtain ⟨before, after, rfl, hoffset, hbefore⟩ := h
  rw [hoffset, List.length_append]
  constructor
  · intro hle
    have hafter : after = [] := List.eq_nil_of_length_eq_zero (by omega)
    rw [show c.rest = glyphs after from hbefore, hafter]
    rfl
  · intro hrest
    rw [hbefore.eq_nil hrest]
    simp

theorem Within.offset_le (h : Within src c) : c.pos.offset ≤ src.length := by
  obtain ⟨before, after, rfl, hoffset, -⟩ := h
  rw [hoffset, List.length_append]
  omega

theorem leads_next (c : Cursor) : Leads c c.next := by
  unfold Cursor.next
  split
  · exact Leads.refl c
  · next g rest hrest => exact ⟨[g], hrest, rfl⟩

theorem leads_skipRun (c : Cursor) (p : Char → Bool) : Leads c (c.skipRun p) :=
  ⟨c.run p, List.takeWhile_append_dropWhile.symm, rfl⟩

/-- No glyph is read from nothing. -/
theorem bytes_ne_nil {g : Glyph} (h : g.Read) : g.bytes ≠ [] := by
  cases h with
  | char k => exact String.utf8EncodeChar_ne_nil
  | stray b hb => exact List.cons_ne_nil b []

theorem Within.read_of_mem (h : Within src c) {g : Glyph} (hg : g ∈ c.rest) : g.Read := by
  obtain ⟨_, after, _, _, hbefore⟩ := h
  rw [show c.rest = glyphs after from hbefore] at hg
  exact Glyph.read_of_mem hg

/-- Past a glyph the offset is larger. -/
theorem Within.offset_lt (h : Within src c) (hlead : Leads c d)
    (hlt : d.rest.length < c.rest.length) : c.pos.offset < d.pos.offset := by
  obtain ⟨gs, hrest, hpos⟩ := hlead
  rw [hpos, offset_foldl_advance]
  cases gs with
  | nil =>
      rw [hrest, List.nil_append] at hlt
      exact absurd hlt (Nat.lt_irrefl _)
  | cons g gs =>
      have hread : g.Read := h.read_of_mem (by rw [hrest]; exact List.mem_cons_self)
      have hbytes : 0 < g.bytes.length := List.length_pos_iff.mpr (bytes_ne_nil hread)
      rw [unread_cons, List.length_append]
      omega

theorem Within.glyphs_rest (h : Within src c) : glyphs (unread c.rest) = c.rest := by
  obtain ⟨before, after, rfl, -, hbefore⟩ := h
  rw [show c.rest = glyphs after from hbefore, unread_glyphs]

theorem peek_reader (h : Within src c) : (reader c).peek src = some c.rest.head? := by
  unfold Reader.peek
  by_cases hend : c.rest = []
  · rw [if_pos (show src.length ≤ (reader c).offset from h.length_le_iff.mpr hend), hend]
    rfl
  · rw [if_neg (show ¬src.length ≤ (reader c).offset from fun hle => hend (h.length_le_iff.mp hle)),
        show slice? src (reader c).offset src.length = _ from h.slice_rest]
    show some (glyphs (unread c.rest)).head? = _
    rw [h.glyphs_rest]

theorem sees_reader (h : Within src c) (p : Char → Bool) :
    (reader c).sees src p = some (c.at? p) := by
  unfold Reader.sees Cursor.at?
  rw [peek_reader h]
  cases c.rest <;> rfl

theorem past_reader (c : Cursor) (g : Glyph) (rest : List Glyph) :
    (reader c).past g = reader ⟨c.pos.advance g, rest⟩ := by
  unfold Reader.past reader
  rw [← offset_advance]

theorem next_reader (h : Within src c) :
    (reader c).next src = some (c.rest.head?, reader c.next) := by
  unfold Reader.next
  by_cases hend : c.rest = []
  · rw [if_pos (show src.length ≤ (reader c).offset from h.length_le_iff.mpr hend)]
    unfold Cursor.next
    rw [hend]
    rfl
  · rw [if_neg (show ¬src.length ≤ (reader c).offset from fun hle => hend (h.length_le_iff.mp hle)),
        show slice? src (reader c).offset src.length = _ from h.slice_rest]
    simp only [Option.bind_eq_bind, Option.bind_some, h.glyphs_rest]
    unfold Cursor.next
    cases hrest : c.rest with
    | nil => exact absurd hrest hend
    | cons g rest =>
        simp only [List.head?_cons]
        rw [past_reader c g rest]
        rfl

/-! ## §4. Runs and gaps. -/

/-- A cursor at a glyph moves on, and stays in the text. -/
theorem Within.next_of_ne_nil (h : Within src c) (hrest : c.rest ≠ []) :
    Within src c.next ∧ (reader c).offset < (reader c.next).offset ∧
      (reader c.next).offset ≤ src.length ∧ c.next.rest.length < c.rest.length := by
  have hlt : c.next.rest.length < c.rest.length := by
    obtain ⟨pos, rest⟩ := c
    cases rest with
    | nil => exact absurd rfl hrest
    | cons g rest => exact Nat.lt_succ_self _
  have hnext := h.leads (leads_next c)
  exact ⟨hnext, h.offset_lt (leads_next c) hlt, hnext.offset_le, hlt⟩

theorem ne_nil_of_at? {p : Char → Bool} (hat : c.at? p = true) : c.rest ≠ [] := by
  intro hrest
  unfold Cursor.at? at hat
  rw [hrest] at hat
  exact absurd hat Bool.false_ne_true

/-- **A run is taken as the cursor takes it.** -/
theorem skipRun_reader (p : Char → Bool) (n : Nat) : ∀ {c : Cursor}, c.rest.length < n →
    Within src c → (reader c).skipRun src p = some (reader (c.skipRun p)) := by
  induction n with
  | zero => exact fun hn => absurd hn (Nat.not_lt_zero _)
  | succ n ih =>
      intro c hn h
      unfold Reader.skipRun
      cases hat : c.at? p with
      | false =>
          rw [Cursor.skipRun_of_not_at? hat]
          refine iterate_of_inl ?_
          rw [sees_reader h, hat]
          rfl
      | true =>
          obtain ⟨hnext, hoffset, hle, hlt⟩ := h.next_of_ne_nil (ne_nil_of_at? hat)
          rw [iterate_of_inr (t := reader c.next) ?_ hoffset hle]
          · rw [← Cursor.skipRun_of_at? hat]
            exact ih (by omega) hnext
          · rw [sees_reader h, hat, next_reader h]
            rfl

theorem run_reader (h : Within src c) (p : Char → Bool) :
    (reader c).run src p = some (unread (c.run p), reader (c.skipRun p)) := by
  unfold Reader.run
  rw [skipRun_reader p (c.rest.length + 1) (Nat.lt_succ_self _) h]
  have hslice : slice? src c.pos.offset (c.skipRun p).pos.offset = some (unread (c.run p)) :=
    (h.slice List.takeWhile_append_dropWhile.symm rfl).2
  show (slice? src c.pos.offset (c.skipRun p).pos.offset >>= _) = _
  rw [hslice]
  rfl

/-- A line is taken to its end, from where white space and comments go on. -/
theorem skipLine_reader (n : Nat) : ∀ {c : Cursor}, c.rest.length < n → Within src c →
    ∃ d, (reader c).skipLine src = some (reader d) ∧ Leads c d ∧
      (c.rest ≠ [] → d.rest.length < c.rest.length) ∧
      d.skipGap = Cursor.skipGap.go true c.pos c.rest := by
  induction n with
  | zero => exact fun hn => absurd hn (Nat.not_lt_zero _)
  | succ n ih =>
      intro c hn h
      unfold Reader.skipLine
      cases hrest : c.rest with
      | nil =>
          refine ⟨c, iterate_of_inl ?_, Leads.refl c, fun hne => absurd rfl hne, ?_⟩
          · rw [next_reader h]
            unfold Cursor.next
            rw [hrest]
            rfl
          · unfold Cursor.skipGap
            rw [hrest]
            rfl
      | cons g rest =>
          have hne : c.rest ≠ [] := by rw [hrest]; exact List.cons_ne_nil g rest
          obtain ⟨hnext, hoffset, hle, hlt⟩ := h.next_of_ne_nil hne
          have hmoved : c.next = ⟨c.pos.advance g, rest⟩ := by
            unfold Cursor.next
            rw [hrest]
          by_cases hnewline : g.char = '\n'
          · refine ⟨c.next, iterate_of_inl ?_, leads_next c, fun _ => hrest ▸ hlt, ?_⟩
            · rw [next_reader h, hrest]
              exact if_pos hnewline
            · rw [Cursor.skipGap_go_true_cons, decide_eq_false (not_not_intro hnewline), hmoved]
              rfl
          · obtain ⟨d, hline, hlead, -, hgap⟩ := ih (c := c.next) (by omega) hnext
            refine ⟨d, ?_, (leads_next c).trans hlead, ?_, ?_⟩
            · rw [iterate_of_inr (t := reader c.next) ?_ hoffset hle]
              · exact hline
              · rw [next_reader h, hrest]
                exact if_neg hnewline
            · intro _
              rw [← hrest]
              exact Nat.lt_of_le_of_lt hlead.length_le hlt
            · rw [hgap, hmoved, Cursor.skipGap_go_true_cons, decide_eq_true hnewline]

/-- **White space and comments are taken as the cursor takes them.** -/
theorem skipGap_reader_of_length (n : Nat) : ∀ {c : Cursor}, c.rest.length < n → Within src c →
    (reader c).skipGap src = some (reader c.skipGap) ∧ Leads c c.skipGap := by
  induction n with
  | zero => exact fun hn => absurd hn (Nat.not_lt_zero _)
  | succ n ih =>
      intro c hn h
      unfold Reader.skipGap
      cases hat : c.at? (· = ';') with
      | true =>
          have hne := ne_nil_of_at? hat
          obtain ⟨d, hline, hlead, hlt, hgap⟩ := skipLine_reader (c.rest.length + 1)
            (Nat.lt_succ_self _) h
          have hd := h.leads hlead
          obtain ⟨hskip, hlead'⟩ := ih (c := d) (by have := hlt hne; omega) hd
          rw [hgap, Cursor.skipGap_of_at?_semicolon hat] at hskip hlead'
          refine ⟨?_, hlead.trans hlead'⟩
          rw [iterate_of_inr (t := reader d) ?_ (h.offset_lt hlead (hlt hne)) hd.offset_le]
          · exact hskip
          · rw [sees_reader h, hat, hline]
            rfl
      | false =>
          cases hblank : c.at? isBlank with
          | true =>
              obtain ⟨hnext, hoffset, hle, hlt⟩ := h.next_of_ne_nil (ne_nil_of_at? hblank)
              obtain ⟨hskip, hlead⟩ := ih (c := c.next) (by omega) hnext
              rw [Cursor.skipGap_of_at?_blank hat hblank] at hskip hlead
              refine ⟨?_, (leads_next c).trans hlead⟩
              rw [iterate_of_inr (t := reader c.next) ?_ hoffset hle]
              · exact hskip
              · rw [sees_reader h, sees_reader h, hat, hblank, next_reader h]
                rfl
          | false =>
              rw [Cursor.skipGap_of_not_at? hat hblank]
              refine ⟨iterate_of_inl ?_, Leads.refl c⟩
              rw [sees_reader h, sees_reader h, hat, hblank]
              rfl

theorem skipGap_reader (h : Within src c) : (reader c).skipGap src = some (reader c.skipGap) :=
  (skipGap_reader_of_length (c.rest.length + 1) (Nat.lt_succ_self _) h).1

theorem Within.leads_skipGap (h : Within src c) : Leads c c.skipGap :=
  (skipGap_reader_of_length (c.rest.length + 1) (Nat.lt_succ_self _) h).2

theorem Within.skipGap (h : Within src c) : Within src c.skipGap := h.leads h.leads_skipGap

/-- A quoted text is taken to its quotation mark, if there is one. -/
theorem skipQuoted_reader (n : Nat) : ∀ {c : Cursor}, c.rest.length < n → Within src c →
    (reader c).skipQuoted src =
      some (if (c.skipRun (· ≠ '\'')).rest = [] then (false, reader (c.skipRun (· ≠ '\'')))
        else (true, reader (c.skipRun (· ≠ '\'')).next)) := by
  induction n with
  | zero => exact fun hn => absurd hn (Nat.not_lt_zero _)
  | succ n ih =>
      intro c hn h
      unfold Reader.skipQuoted
      by_cases hend : c.rest = []
      · -- the text ends without the mark
        have hat : c.at? (· ≠ '\'') = false := by unfold Cursor.at?; rw [hend]
        rw [Cursor.skipRun_of_not_at? hat, if_pos hend]
        refine iterate_of_inl ?_
        rw [next_reader h]
        unfold Cursor.next
        rw [hend]
        rfl
      · obtain ⟨g, rest, hrest⟩ := List.exists_cons_of_ne_nil hend
        by_cases hmark : g.char = '\''
        · have hat : c.at? (· ≠ '\'') = false := by
            unfold Cursor.at?
            rw [hrest]
            exact decide_eq_false (not_not_intro hmark)
          rw [Cursor.skipRun_of_not_at? hat, if_neg hend]
          refine iterate_of_inl ?_
          rw [next_reader h, hrest]
          exact if_pos hmark
        · have hat : c.at? (· ≠ '\'') = true := by
            unfold Cursor.at?
            rw [hrest]
            exact decide_eq_true hmark
          obtain ⟨hnext, hoffset, hle, hlt⟩ := h.next_of_ne_nil hend
          rw [iterate_of_inr (t := reader c.next) ?_ hoffset hle, ← Cursor.skipRun_of_at? hat]
          · exact ih (by omega) hnext
          · rw [next_reader h, hrest]
            exact if_neg hmark

end

end Checked

end Quartet
