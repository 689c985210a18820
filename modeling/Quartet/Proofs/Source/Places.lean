/-
  Quartet.Proofs.Source.Places
  ────────────────────────────
  **WHERE THINGS STAND IN A TEXT.**

  A position is carried along while a text is read, one glyph at a time.  It could as well be counted
  from the bytes before it, and this is what it has to agree with:

    • `placeAt` — the place after some bytes of a text, counted,
    • `placeAt_advance` — one glyph further on, counted anew,
    • `Checked.Leads.eq_placeAt` — hence every cursor that is reached stands where it is counted to,
    • `positions_exact` — so do all records and errors, and records stand at their first token.
-/
import Mathlib.Control.Monad.Basic
import Quartet.Proofs.Source.Completeness
import Quartet.Proofs.Source.Outcomes

namespace Quartet

open Checked

/-! ## §1. Counting. -/

/-- The bytes after the last newline. -/
def lastLine (bs : Bytes) : Bytes := (bs.reverse.takeWhile (· ≠ asciiByte '\n')).reverse

/-- **The place after the first bytes of a text**: the line counts the newlines among them, the column
the code points since the last one, where a byte that is no part of a code point counts as one. -/
def placeAt (file src : Bytes) (offset : Nat) : Position where
  file := file
  offset := offset
  line := 1 + (src.take offset).count (asciiByte '\n')
  column := 1 + (glyphs (lastLine (src.take offset))).length

theorem lastLine_newline (bs : Bytes) : lastLine (bs ++ [asciiByte '\n']) = [] := by
  unfold lastLine
  rw [List.reverse_concat, List.takeWhile_cons_of_neg (by simp)]
  rfl

theorem lastLine_append {more : Bytes} (h : asciiByte '\n' ∉ more) (bs : Bytes) :
    lastLine (bs ++ more) = lastLine bs ++ more := by
  have hall : ∀ b ∈ more.reverse, decide (b ≠ asciiByte '\n') = true := by
    intro b hb
    refine decide_eq_true ?_
    intro heq
    exact h (heq ▸ List.mem_reverse.mp hb)
  unfold lastLine
  rw [List.reverse_append, List.takeWhile_append_of_pos hall, List.reverse_append,
      List.reverse_reverse]

/-- A text is its last line, or has a newline before it. -/
theorem lastLine_cases (bs : Bytes) :
    lastLine bs = bs ∨ ∃ front, bs = front ++ asciiByte '\n' :: lastLine bs := by
  let mark : UInt8 → Bool := (· ≠ asciiByte '\n')
  have hsplit : bs = (bs.reverse.dropWhile mark).reverse ++ lastLine bs := by
    show bs = _ ++ (bs.reverse.takeWhile mark).reverse
    rw [← List.reverse_append, List.takeWhile_append_dropWhile, List.reverse_reverse]
  cases hdrop : bs.reverse.dropWhile mark with
  | nil =>
      rw [hdrop] at hsplit
      exact Or.inl hsplit.symm
  | cons b front =>
      have hb : b = asciiByte '\n' := by
        have hhead := List.head?_dropWhile_not mark bs.reverse
        rw [hdrop] at hhead
        simpa [mark] using hhead
      rw [hdrop, hb, List.reverse_cons, List.append_assoc] at hsplit
      exact Or.inr ⟨front.reverse, hsplit⟩

/-! ## §2. One glyph. -/

/-- A glyph that is added to a text without being a newline is added to its last line. -/
theorem glyphs_lastLine_append {bs : Bytes} {g : Glyph}
    (h : glyphs (bs ++ g.bytes) = glyphs bs ++ [g]) :
    glyphs (lastLine bs ++ g.bytes) = glyphs (lastLine bs) ++ [g] := by
  rcases lastLine_cases bs with hline | ⟨front, hfront⟩
  · rwa [hline]
  · -- what stands before the last line is read on its own
    have hcut : ∀ more, glyphs (front ++ asciiByte '\n' :: more) =
        glyphs front ++ Glyph.ofChar '\n' :: glyphs more := by
      intro more
      rw [glyphs_append_ascii front (by decide), glyphs_asciiByte_cons (by decide)]
    generalize lastLine bs = line at *
    rw [hfront, List.append_assoc, List.cons_append, hcut, hcut, List.append_assoc,
        List.cons_append] at h
    exact (List.cons.inj (List.append_cancel_left h)).2

/-- **One glyph further on** is the place after its bytes. -/
theorem placeAt_advance {file src : Bytes} {gs more : List Glyph} {g : Glyph}
    (h : glyphs src = gs ++ g :: more) :
    (placeAt file src (unread gs).length).advance g =
      placeAt file src (unread (gs ++ [g])).length := by
  have hmem : g ∈ glyphs src := by
    rw [h]
    exact List.mem_append_right _ List.mem_cons_self
  have hread : g.Read := Glyph.read_of_mem hmem
  have h' : glyphs src = (gs ++ [g]) ++ more := by
    rw [h, List.append_assoc]
    rfl
  have hunread : unread (gs ++ [g]) = unread gs ++ g.bytes := by
    rw [unread_append, unread_cons, unread_nil, List.append_nil]
  have htake : src.take (unread gs).length = unread gs := by
    rw [(glyphs_eq_append h).1, List.take_left]
  have htake' : src.take (unread gs ++ g.bytes).length = unread gs ++ g.bytes := by
    rw [← hunread, (glyphs_eq_append h').1, List.take_left]
  unfold placeAt Position.advance
  rw [hunread, htake, htake', List.count_append, List.length_append]
  by_cases hchar : g.char = '\n'
  · -- a newline ends its line, so that the last line is empty
    rw [if_pos hchar, hread.bytes_of_ascii hchar (by decide), lastLine_newline]
    simp [Int.add_assoc]
  · have hbyte : asciiByte '\n' ∉ g.bytes := by
      rw [hread.asciiByte_mem_iff (by decide)]
      exact hchar
    have hline : glyphs (unread gs ++ g.bytes) = glyphs (unread gs) ++ [g] := by
      rw [← hunread, glyphs_unread_of_append h', glyphs_unread_of_append h]
    rw [if_neg hchar, List.count_eq_zero_of_not_mem hbyte, lastLine_append hbyte,
        glyphs_lastLine_append hline, List.length_append]
    simp [Int.add_assoc]

/-! ## §3. All glyphs. -/

/-- The place after glyphs that are read one after the other. -/
theorem foldl_advance_placeAt {file src : Bytes} (gs : List Glyph) :
    ∀ {before more : List Glyph}, glyphs src = before ++ (gs ++ more) →
      gs.foldl Position.advance (placeAt file src (unread before).length) =
        placeAt file src (unread (before ++ gs)).length := by
  induction gs with
  | nil =>
      intro before more _
      rw [List.append_nil]
      rfl
  | cons g gs ih =>
      intro before more h
      have hnext : glyphs src = (before ++ [g]) ++ (gs ++ more) := by
        rw [h, List.append_assoc]
        rfl
      rw [List.foldl_cons, placeAt_advance h, ih hnext, List.append_assoc]
      rfl

/-- **A cursor that is reached** stands where the bytes before it are counted to. -/
theorem Checked.Leads.eq_placeAt {file src : Bytes} {c : Cursor}
    (h : Leads (Cursor.start file src) c) :
    ∃ offset ≤ src.length, c.pos = placeAt file src offset ∧ c.Before (src.drop offset) := by
  obtain ⟨gs, hrest, hpos⟩ := h
  have hsplit : glyphs src = gs ++ c.rest := hrest
  obtain ⟨hsrc, hglyphs⟩ := glyphs_eq_append hsplit
  refine ⟨(unread gs).length, ?_, ?_, ?_⟩
  · rw [hsrc, List.length_append]
    omega
  · rw [hpos]
    show gs.foldl Position.advance (placeAt file src (unread []).length) = _
    exact foldl_advance_placeAt gs (List.nil_append _ ▸ hsplit)
  · show c.rest = glyphs (src.drop (unread gs).length)
    rw [hsrc, List.drop_left, hglyphs]

/-! ## §4. Tokens. -/

/-- The token that a record starts with: its label, or its head if it has none. -/
def Record.firstToken (r : Record) : Token := (r.label.map Token.label).getD r.head

/-- A text starts with a token.  If a name ends the token, it ends there. -/
def StartsWith (t : Token) (src : Bytes) : Prop :=
  ∃ form rest, src = form ++ rest ∧ Spells t form ∧
    (t.endsInName = true → Stops isNamePart rest)

theorem Cursor.Opened.startsWith {t : Token} {ts : List Token} {src : Bytes}
    (h : Cursor.Opened (t :: ts) src) : StartsWith t src := by
  cases h with
  | @token _ _ form rest hform hrest =>
      exact ⟨form, rest, rfl, hform, fun ht => hrest.stops_isNamePart ht⟩

theorem Record.tokens_eq_firstToken_cons (r : Record) :
    ∃ ts, r.tokens = r.firstToken :: ts := by
  unfold Record.tokens Record.firstToken
  cases r.label with
  | none => exact ⟨r.operands, rfl⟩
  | some name => exact ⟨r.head :: r.operands, rfl⟩

namespace Cursor

variable {c d : Cursor} {q : List Record}

theorem pos_of_record {r : Record} (h : c.record = .ok (r, d)) : r.pos = c.pos := by
  obtain ⟨t, after, ts, -, -, rfl⟩ := record_eq_ok h
  rfl

/-- Records that lead to the end of a text are all that it holds. -/
theorem ReadsOn.records_eq_ok (h : ReadsOn c q d) (hend : d.skipGap.rest = []) :
    c.records #[] = .ok q := by
  rw [h.records_eq, records, if_pos hend]
  simp

/-- A record that is read stands at its first token. -/
theorem ReadsOn.startsWith {r : Record} {src : Bytes} (h : ReadsOn c (r :: q) d)
    (hend : d.skipGap.rest = []) (hbefore : c.Before src) :
    ∃ src', c.skipGap.Before src' ∧ StartsWith r.firstToken src' := by
  obtain ⟨p, hp, -, hwritten⟩ := writes_of_records hbefore (h.records_eq_ok hend)
  obtain rfl : r :: q = p := hp
  obtain ⟨ts, hts⟩ := r.tokens_eq_firstToken_cons
  have htokens : Program.tokens (r :: q) = r.firstToken :: (ts ++ Program.tokens q) := by
    show r.tokens ++ _ = _
    rw [hts]
    rfl
  obtain ⟨src', hsrc', hopened⟩ := opened_skipGap hbefore (hwritten none (follows_none src))
  rw [htokens] at hopened
  exact ⟨src', hsrc', hopened.startsWith⟩

/-- **The records of a text** stand one after the other, each at its first token. -/
theorem ReadsOn.places {src : Bytes} (h : ReadsOn c q d) (hwithin : Within src c)
    (hend : d.skipGap.rest = []) :
    q.Pairwise (fun r s => r.pos.offset < s.pos.offset) ∧
      ∀ r ∈ q, ∃ x, Leads c x ∧ r.pos = x.pos ∧ StartsWith r.firstToken (unread x.rest) := by
  induction h with
  | done c => exact ⟨List.Pairwise.nil, fun r hr => absurd hr List.not_mem_nil⟩
  | @record c after d r q hrecord hrest ih =>
      have hgap := hwithin.leads_skipGap
      have hreads := (reads_record hwithin.skipGap).leads _ _ hrecord
      have hafter := hwithin.leads (hgap.trans hreads)
      have hpos := pos_of_record hrecord
      obtain ⟨hordered, hplaces⟩ := ih hafter hend
      refine ⟨List.Pairwise.cons ?_ hordered, ?_⟩
      · intro s hs
        obtain ⟨x, hx, hxpos, -⟩ := hplaces s hs
        -- a record takes at least one glyph, and the later ones start after it
        have hlt : x.rest.length < c.skipGap.rest.length :=
          Nat.lt_of_le_of_lt hx.length_le (length_record_lt hrecord)
        rw [hpos, hxpos]
        exact hwithin.skipGap.offset_lt (hreads.trans hx) hlt
      · intro s hs
        rcases List.mem_cons.mp hs with rfl | hs
        · obtain ⟨src', hsrc', hstarts⟩ := (ReadsOn.record hrecord hrest).startsWith hend
            (show c.Before (unread c.rest) from hwithin.glyphs_rest.symm)
          refine ⟨c.skipGap, hgap, hpos, ?_⟩
          rwa [show c.skipGap.rest = glyphs src' from hsrc', unread_glyphs]
        · obtain ⟨x, hx, hxpos, hstarts⟩ := hplaces s hs
          exact ⟨x, (hgap.trans hreads).trans hx, hxpos, hstarts⟩

end Cursor

/-! ## §5. Texts. -/

/-- A text that is parsed is read to its end. -/
theorem Program.readsOn_of_parse {file src : Bytes} {p : Program}
    (h : Program.parse file src = .ok p) :
    ∃ d, Cursor.ReadsOn (Cursor.start file src) p d ∧ d.skipGap.rest = [] := by
  obtain ⟨q, d, hreads, ⟨hend, hok⟩ | ⟨-, e, -, herror⟩⟩ :=
    Cursor.records_outcome (Cursor.start file src) #[]
  · obtain rfl : p = q := Except.ok.inj (h.symm.trans hok)
    exact ⟨d, hreads, hend⟩
  · exact absurd (h.symm.trans herror) (by simp)

/-- **Positions are exact.**  Whatever a text is named and holds, its records and its error stand at
places of it, counted from its bytes: the records one after the other, each at its first token. -/
theorem positions_exact (file src : Bytes) :
    (∀ p, Program.parse file src = .ok p →
      p.Pairwise (fun r s => r.pos.offset < s.pos.offset) ∧
        ∀ r ∈ p, ∃ offset ≤ src.length, r.pos = placeAt file src offset ∧
          StartsWith r.firstToken (src.drop offset)) ∧
    ∀ e, Program.parse file src = .error e →
      ∃ offset ≤ src.length, e.pos = placeAt file src offset := by
  refine ⟨?_, ?_⟩
  · intro p hp
    obtain ⟨d, hreads, hend⟩ := Program.readsOn_of_parse hp
    obtain ⟨hordered, hplaces⟩ := hreads.places (within_start file src) hend
    refine ⟨hordered, ?_⟩
    intro r hr
    obtain ⟨x, hx, hpos, hstarts⟩ := hplaces r hr
    obtain ⟨offset, hle, hplace, hbefore⟩ := hx.eq_placeAt
    refine ⟨offset, hle, hpos.trans hplace, ?_⟩
    rwa [show x.rest = glyphs _ from hbefore, unread_glyphs] at hstarts
  · intro e he
    obtain ⟨-, -, x, -, -, hlead, problem, rfl, -⟩ :=
      Cursor.records_eq_error (within_start file src) he
    obtain ⟨offset, hle, hplace, -⟩ := hlead.eq_placeAt
    exact ⟨offset, hle, hplace⟩

/-- A text in quotation marks with a letter of two bytes and a byte that is no part of a letter, a
record on the same line and one on the next. -/
def placesSample : Bytes :=
  ascii ".d 'x" ++ [0xC3, 0xA9, 0xFF] ++ ascii "' l: hlt; end\n\tinc $1"

theorem positions_exact_sample :
    (∃ p, Program.parse (ascii "f") placesSample = .ok p ∧
      p.map Record.pos = [⟨ascii "f", 0, 1, 1⟩, ⟨ascii "f", 10, 1, 10⟩, ⟨ascii "f", 23, 2, 2⟩] ∧
      ∀ r ∈ p, ∃ offset ≤ placesSample.length, r.pos = placeAt (ascii "f") placesSample offset ∧
        StartsWith r.firstToken (placesSample.drop offset)) ∧
    ∃ e, Program.parse (ascii "f") (placesSample ++ ascii "000") = .error e ∧
      e.pos = ⟨ascii "f", 27, 2, 6⟩ ∧
      ∃ offset ≤ (placesSample ++ ascii "000").length,
        e.pos = placeAt (ascii "f") (placesSample ++ ascii "000") offset := by
  have hok : Program.parse (ascii "f") placesSample = .ok
      [⟨⟨ascii "f", 0, 1, 1⟩, none, .directive (ascii "d"), [.string (120 :: [0xC3, 0xA9, 0xFF])]⟩,
       ⟨⟨ascii "f", 10, 1, 10⟩, some (ascii "l"), .op Opcode.hlt.toByte, []⟩,
       ⟨⟨ascii "f", 23, 2, 2⟩, none, .op Opcode.inc.toByte, [.register 1]⟩] := by
    decide +kernel
  have herror : Program.parse (ascii "f") (placesSample ++ ascii "000") = .error
      ⟨⟨ascii "f", 27, 2, 6⟩, .registerRange (ascii "1000"), ascii "$1000"⟩ := by
    decide +kernel
  exact ⟨⟨_, hok, rfl, ((positions_exact _ _).1 _ hok).2⟩,
    ⟨_, herror, rfl, (positions_exact _ _).2 _ herror⟩⟩

end Quartet
