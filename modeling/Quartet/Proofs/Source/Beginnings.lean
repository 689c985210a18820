/-
  Quartet.Proofs.Source.Beginnings
  ────────────────────────────────
  **WHAT STANDS BEFORE AN ERROR IS RIGHT.**

  A text is refused at a token.  Everything before it is the beginning of a program: with `hlt` on a
  line of its own in place of what follows, the text is parsed.  If a label was waiting for its record,
  it gets this one; any other record is complete as it is, with the operands it has.

    • `Frame.halt` — the beginning of a text, and `hlt`,
    • `Cursor.RefusedAt.records_halt` — the three ways to be refused, and how each goes on,
    • `parse_error_located` — hence the place of an error.
-/
import Quartet.Assembly.Diagnostic
import Quartet.Proofs.Source.Joining
import Quartet.Proofs.Source.Printing

namespace Quartet

open Checked

/-! ## §1. The beginning of a text, and `hlt`. -/

/-- The program that stops at once. -/
def haltProgram : Program := [⟨{}, none, .op Opcode.hlt.toByte, []⟩]

theorem haltProgram_writes : haltProgram.Writes (ascii "hlt") := by
  refine ⟨?_, ?_⟩
  · intro r hr
    rw [List.mem_singleton.mp hr]
    exact ⟨rfl, Nat.zero_le _, fun t ht => absurd ht List.not_mem_nil⟩
  · have hform : Spells (.op Opcode.hlt.toByte) (ascii "hlt") :=
      Spells.op Opcode.hlt.isName_mnemonic Opcode.hlt.lookup?_mnemonic
    refine Written.token Gap.nil ?_ hform (Written.done (LastGap.closed Gap.nil))
    rintro - ⟨t, ht, -⟩
    exact absurd ht (by simp)

/-- The place of that program, on the line after a position. -/
def haltCursor (pos : Position) : Cursor :=
  ⟨pos.advance (Glyph.ofChar '\n'), glyphs (ascii "hlt")⟩

theorem before_haltCursor (pos : Position) : (haltCursor pos).Before (ascii "hlt") := rfl

/-- The frame of a text whose last glyphs are replaced by that program. -/
def Frame.halt (cut : Nat) : Frame := Frame.line cut haltProgram_writes

/-- Where the beginning ends, the next token is `hlt`. -/
theorem Frame.skipGap_cursor_halt {cut : Nat} {x : Cursor} (hx : x.rest.length = cut) :
    ((Frame.halt cut).cursor x).skipGap = (haltCursor x.pos).skipGap := by
  unfold Frame.cursor
  rw [(Frame.halt cut).rest_of_length hx]
  exact Cursor.skipGap_newline x.pos (glyphs (ascii "hlt"))

/-- Nothing is refused from there on. -/
theorem Frame.records_halt {cut : Nat} {x z : Cursor} (hx : x.rest.length = cut)
    (hz : z.skipGap = ((Frame.halt cut).cursor x).skipGap) (before : Array Record) :
    ∃ p, z.records before = .ok p := by
  rw [Frame.skipGap_cursor_halt hx] at hz
  obtain ⟨p, hp, -⟩ := Cursor.records_of_written haltProgram_writes.1 (before_haltCursor x.pos)
    haltProgram_writes.2 before
  exact ⟨_, (Cursor.records_of_skipGap_eq hz before).trans hp⟩

namespace Cursor

/-! ## §2. Three ways to be refused. -/

section

variable {c x : Cursor} {e : SyntaxError}

/-- A label that waits for its record gets `hlt`. -/
theorem records_halt_of_label {name : Bytes} (hlabel : c.label = (some name, x))
    (hgap : c.skipGap = c) (before : Array Record) :
    ∃ p, ((Frame.halt x.rest.length).cursor c).records before = .ok p := by
  let F := Frame.halt x.rest.length
  have hstay := F.skipGap_cursor_of_eq hgap (length_label_lt hlabel)
  have hfound : (F.cursor c).label = (some name, (F.cursor x).skipGap) :=
    F.label_cursor_of_some hlabel (Nat.le_refl _)
  obtain ⟨src, hbefore, hopened⟩ := opened_skipGap (before_haltCursor x.pos) haltProgram_writes.2
  rw [← Frame.skipGap_cursor_halt rfl] at hbefore
  cases hopened with
  | @token _ _ form rest hform hrest =>
      obtain ⟨after, hhead, hafter⟩ := head_of_form rfl hform hrest hbefore (some name)
      have hnone : Written (some (.op Opcode.hlt.toByte)) ([] ++ []) rest := hrest
      obtain ⟨d, src', prev, hoperands, hd, hdone⟩ := operands_of_written hafter hnone
        (Nat.zero_le maxOperands) (by simp) (by simp)
      have hrecord := record_of_operands hfound hhead hoperands
      rw [← hstay] at hrecord
      rw [records_of_record hrecord]
      obtain ⟨p, hp, -⟩ := records_of_written (q := []) (by simp) hd hdone (before.push _)
      exact ⟨_, hp⟩

/-- Operands that are all there, and no more of them. -/
theorem operands_of_none {k : Nat} {d : Cursor} (hnone : d.skipGap.operand = none) (n : Nat) :
    ∀ {c : Cursor} {ts : List Token}, operands n c = .ok (ts, d) → ts.length = n →
      operands (n + (k + 1)) c = .ok (ts, d.skipGap) := by
  induction n with
  | zero =>
      intro c ts hok _
      obtain ⟨rfl, rfl⟩ := Prod.mk.inj (Except.ok.inj hok)
      rw [Nat.zero_add]
      unfold operands
      rw [hnone]
  | succ n ih =>
      intro c ts hok hlen
      unfold operands at hok
      split at hok
      · obtain ⟨rfl, -⟩ := Prod.mk.inj (Except.ok.inj hok)
        exact absurd hlen (by simp)
      · exact absurd hok (by simp)
      · next t after hoperand =>
        split at hok
        · exact absurd hok (by simp)
        · next us final hrest =>
          obtain ⟨rfl, rfl⟩ := Prod.mk.inj (Except.ok.inj hok)
          have hmore := ih hrest (Nat.succ.inj hlen)
          rw [Nat.succ_add]
          unfold operands
          rw [hoperand]
          simp only [hmore]

/-- **However a record is refused**, with `hlt` in place of the refused token and all that follows it
the text is read to its end. -/
theorem RefusedAt.records_halt (h : c.RefusedAt e x) (hgap : c.skipGap = c) (before : Array Record) :
    ∃ p, ((Frame.halt x.rest.length).cursor c).records before = .ok p := by
  cases h with
  | head hhead =>
      rcases label_cases c with hlabel | ⟨name, y, hlabel⟩
      · rw [hlabel]
        exact Frame.records_halt rfl rfl before
      · rw [hlabel]
        exact records_halt_of_label hlabel hgap before
  | @operand t after d n k ts hhead hlimit hread hlen _ =>
      let F := Frame.halt d.skipGap.rest.length
      have hcut : F.cut ≤ d.rest.length := length_skipGap_le d
      have hafter := Nat.le_trans hcut (length_operands_le hread)
      have hlt : F.cut < c.rest.length := Nat.lt_of_le_of_lt hafter
        (Nat.lt_of_lt_of_le (length_head_lt hhead) (length_label_le c))
      have hstay := F.skipGap_cursor_of_eq hgap hlt
      obtain ⟨d', hread', hgap'⟩ := F.operands_cursor n hread hcut
      -- the operands end with those before the refused one
      have hend : d'.skipGap = (F.cursor d.skipGap).skipGap := by
        rw [hgap', F.skipGap_cursor (Nat.le_refl _)]
      have hnone : d'.skipGap.operand = none := by
        rw [hend, Frame.skipGap_cursor_halt rfl]
        exact haltProgram_writes.operand_eq_none (before_haltCursor _)
      have hoperands : operands maxOperands (F.cursor after) = .ok (ts, d'.skipGap) := by
        rw [hlimit]
        exact operands_of_none hnone n hread' hlen
      have hrecord := record_of_operands (F.label_cursor hhead hafter) (F.head_cursor hhead hafter)
        hoperands
      rw [← hstay] at hrecord
      rw [records_of_record hrecord]
      have hnext : d'.skipGap.skipGap = (F.cursor d.skipGap).skipGap := by
        rw [Cursor.skipGap_skipGap, hend]
      exact Frame.records_halt rfl hnext _

end

/-! ## §3. Texts. -/

/-- A cursor in a text stands between its first bytes and the others.  The first bytes and `hlt` are
the text in the frame of that cursor. -/
theorem start_halt {file src : Bytes} {x : Cursor} (h : Leads (start file src) x) :
    ∃ k ≤ src.length, x.pos.offset = k ∧ unread x.rest = src.drop k ∧
      start file (src.take k ++ asciiByte '\n' :: ascii "hlt") =
        (Frame.halt x.rest.length).cursor (start file src) := by
  obtain ⟨gs, hrest, hpos⟩ := h
  have hsplit : glyphs src = gs ++ x.rest := hrest
  obtain ⟨hsrc, -⟩ := glyphs_eq_append hsplit
  refine ⟨(unread gs).length, ?_, ?_, ?_, ?_⟩
  · rw [hsrc, List.length_append]
    omega
  · rw [hpos, offset_foldl_advance]
    exact Int.zero_add _
  · conv => rhs; rw [hsrc, List.drop_left]
  · have htake : src.take (unread gs).length = unread gs := by
      rw [hsrc, List.take_left]
    unfold Frame.cursor start
    rw [htake, glyphs_append_newline, glyphs_unread_of_append hsplit, hsplit,
        (Frame.halt x.rest.length).rest_append gs (Nat.le_refl _),
        (Frame.halt x.rest.length).rest_of_length rfl]
    rfl

end Cursor

/-- **An error points at the first token that does not fit.**  It is a syntax error, the rest of the
text from its place on is what it holds and what its problem describes, and what stands before that
place is the beginning of a program: with `hlt` on a line of its own behind it, it is parsed. -/
theorem parse_error_located {file src : Bytes} {e : SyntaxError}
    (h : Program.parse file src = .error e) :
    e.diagnostic.kind = .syntaxError ∧
      ∃ k ≤ src.length, e.diagnostic.pos.offset = k ∧ e.diagnostic.remainder = src.drop k ∧
        e.problem.Describes (src.drop k) ∧
        ∃ p, Program.parse file (src.take k ++ asciiByte '\n' :: ascii "hlt") = .ok p := by
  have hwithin := within_start file src
  obtain ⟨q, d, x, hreads, hrefused, hlead, problem, rfl, hdescribes⟩ :=
    Cursor.records_eq_error hwithin h
  obtain ⟨k, hle, hoffset, hremainder, hstart⟩ := Cursor.start_halt hlead
  refine ⟨rfl, k, hle, hoffset, hremainder, hremainder ▸ hdescribes, ?_⟩
  let F := Frame.halt x.rest.length
  have hgap : F.cut ≤ d.skipGap.rest.length :=
    (hrefused.leads (hwithin.leads (hreads.leads hwithin)).skipGap).length_le
  have hd : F.cut ≤ d.rest.length := Nat.le_trans hgap (Cursor.length_skipGap_le d)
  obtain ⟨p, hp⟩ := hrefused.records_halt (Cursor.skipGap_skipGap d) (#[] ++ (q.map F.record).toArray)
  refine ⟨p, ?_⟩
  calc Program.parse file (src.take k ++ asciiByte '\n' :: ascii "hlt")
      = (F.cursor (Cursor.start file src)).records #[] := congrArg (Cursor.records · #[]) hstart
    _ = (F.cursor d).records (#[] ++ (q.map F.record).toArray) := F.records_cursor hreads hd #[]
    _ = (F.cursor d.skipGap).records (#[] ++ (q.map F.record).toArray) :=
        Cursor.records_of_skipGap_eq (F.skipGap_cursor hgap) _
    _ = .ok p := hp

/-- A label at the end of a text, in front of a comment that a stray byte ends. -/
def waitingSample : Bytes := ascii "hlt l: ; c" ++ [0xFF]

/-- Its record is missed where the text ends. -/
def waitingError : SyntaxError := ⟨⟨[], 11, 1, 12⟩, .nothingAfterLabel (ascii "l"), []⟩

theorem parse_error_located_sample :
    Program.parse [] waitingSample = .error waitingError ∧
      waitingError.diagnostic.kind = .syntaxError ∧
        ∃ k ≤ waitingSample.length, waitingError.diagnostic.pos.offset = k ∧
          waitingError.diagnostic.remainder = waitingSample.drop k ∧
          waitingError.problem.Describes (waitingSample.drop k) ∧
          ∃ p, Program.parse [] (waitingSample.take k ++ asciiByte '\n' :: ascii "hlt") = .ok p := by
  have herror : Program.parse [] waitingSample = .error waitingError := by decide +kernel
  exact ⟨herror, parse_error_located herror⟩

end Quartet
