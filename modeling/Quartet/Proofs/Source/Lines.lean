/-
  Quartet.Proofs.Source.Lines
  ───────────────────────────
  **LINES WRITE A TEXT TOGETHER.**

  A newline is a gap, and it ends a comment.  So a text that is cut at its newlines, each line being
  trimmed, writes one after the other what its lines write:

    • `exists_trim` — what trimming takes away on both ends is a gap,
    • `Program.Writes.of_trim`, `Program.Writes.append_line` — one line, and a line before more,
    • `Program.writes_of_linesOf` — hence all lines of a text.
-/
import Quartet.Proofs.Source.Grammar
import Quartet.Session.Run

namespace Quartet

/-! ## §1. Gaps at the ends of a text. -/

/-- White space is a gap. -/
theorem gap_unread {gs : List Glyph} (hread : ∀ g ∈ gs, g.Read)
    (hblank : ∀ g ∈ gs, g.isBlank = true) : Gap (unread gs) := by
  induction gs with
  | nil => exact Gap.nil
  | cons g gs ih =>
      have hg : isBlank g.char = true := hblank g List.mem_cons_self
      -- white space is never a stray byte, so its bytes are those of its code point
      rw [unread_cons, (hread g List.mem_cons_self).bytes_of_class isBlank_replacement hg]
      exact Gap.blank hg (ih (fun g' hg' => hread g' (List.mem_cons_of_mem _ hg'))
        (fun g' hg' => hblank g' (List.mem_cons_of_mem _ hg')))

/-- **What trimming takes away is a gap on either side.** -/
theorem exists_trim (line : Bytes) :
    ∃ before after, line = before ++ (trim line ++ after) ∧ Gap before ∧ Gap after := by
  let gs := glyphs line
  let tail := (gs.dropWhile Glyph.isBlank).reverse
  have hread : ∀ g ∈ gs, g.Read := fun g => Glyph.read_of_mem
  have hfront : gs = gs.takeWhile Glyph.isBlank ++ tail.reverse := by
    rw [List.reverse_reverse, List.takeWhile_append_dropWhile]
  have hback : tail.reverse =
      (tail.dropWhile Glyph.isBlank).reverse ++ (tail.takeWhile Glyph.isBlank).reverse := by
    rw [← List.reverse_append, List.takeWhile_append_dropWhile]
  have hmem : ∀ g ∈ tail, g ∈ gs := by
    intro g hg
    exact (List.dropWhile_suffix _).subset (List.mem_reverse.mp hg)
  refine ⟨unread (gs.takeWhile Glyph.isBlank), unread (tail.takeWhile Glyph.isBlank).reverse,
    ?_, ?_, ?_⟩
  · show line = _ ++ (unread (tail.dropWhile Glyph.isBlank).reverse ++ _)
    rw [← unread_append, ← hback, ← unread_append, ← hfront]
    exact (unread_glyphs line).symm
  · refine gap_unread ?_ ?_
    · exact fun g hg => hread g ((List.takeWhile_prefix _).subset hg)
    · exact fun g hg => List.all_eq_true.mp List.all_takeWhile g hg
  · refine gap_unread ?_ ?_
    · intro g hg
      exact hread g (hmem g ((List.takeWhile_prefix _).subset (List.mem_reverse.mp hg)))
    · exact fun g hg => List.all_eq_true.mp List.all_takeWhile g (List.mem_reverse.mp hg)

/-- A gap within a line may also stand in the comment that ends a text. -/
theorem LastGap.append_right {gap more : Bytes} (h : LastGap gap) (hmore : Gap more)
    (hline : asciiByte '\n' ∉ more) : LastGap (gap ++ more) := by
  cases h with
  | closed hgap => exact LastGap.closed (hgap.append hmore)
  | @comment gap body hgap hbody =>
      rw [List.append_assoc, List.cons_append]
      refine LastGap.comment hgap ?_
      rw [List.mem_append]
      rintro (hmem | hmem)
      · exact hbody hmem
      · exact hline hmem

/-- A newline ends the comment that a text may end in. -/
theorem LastGap.newline {gap : Bytes} (h : LastGap gap) : Gap (gap ++ [asciiByte '\n']) := by
  cases h with
  | closed hgap =>
      have hnewline : Gap (String.utf8EncodeChar '\n' ++ []) := Gap.blank (by decide) Gap.nil
      exact hgap.append hnewline
  | comment hgap hbody =>
      rw [List.append_assoc]
      exact hgap.append (Gap.comment hbody Gap.nil)

namespace Written

variable {prev : Option Token} {ts us : List Token} {src src' more : Bytes}

theorem gap_append (h : Written none ts src) (hmore : Gap more) : Written none ts (more ++ src) := by
  by_cases hne : more = []
  · rw [hne]
    exact h
  · exact h.after_gap hmore hne none

theorem append_gap (h : Written prev ts src) (hmore : Gap more) (hline : asciiByte '\n' ∉ more) :
    Written prev ts (src ++ more) := by
  induction h with
  | done hlast => exact Written.done (hlast.append_right hmore hline)
  | token hgap hclash hform _ ih =>
      rw [List.append_assoc, List.append_assoc]
      exact Written.token hgap hclash hform ih

/-- **Two texts with a newline between them.** -/
theorem append_line (h : Written prev ts src) (h' : Written none us src') :
    Written prev (ts ++ us) (src ++ asciiByte '\n' :: src') := by
  induction h with
  | @done prev gap hlast =>
      -- with its newline the last gap is one that the second text may follow
      have hnewline := h'.after_gap hlast.newline (by simp) prev
      rwa [List.append_assoc] at hnewline
  | token hgap hclash hform _ ih =>
      rw [List.append_assoc, List.append_assoc]
      exact Written.token hgap hclash hform ih

end Written

/-! ## §2. Lines of a program. -/

theorem linesOf_nil (before : Array Bytes) : linesOf [] before = (before.toList, false) := by
  rw [linesOf, if_pos rfl]

theorem newline_not_mem_withoutReturn {line : Bytes} (h : asciiByte '\n' ∉ line) :
    asciiByte '\n' ∉ withoutReturn line := by
  unfold withoutReturn
  by_cases hreturn : line.getLast? = some (asciiByte '\r')
  · rw [if_pos hreturn]
    exact fun hmem => h (List.dropLast_subset _ hmem)
  · rwa [if_neg hreturn]

namespace Program

variable {p q : Program} {line src : Bytes}

theorem writes_nil : Program.Writes [] [] :=
  ⟨fun _ hr => absurd hr List.not_mem_nil, Written.done (LastGap.closed Gap.nil)⟩

/-- White space around a line does not matter. -/
theorem Writes.of_trim (h : p.Writes (trim line)) (hline : asciiByte '\n' ∉ line) :
    p.Writes line := by
  obtain ⟨before, after, heq, hbefore, hafter⟩ := exists_trim line
  have hafter' : asciiByte '\n' ∉ after := by
    intro hmem
    refine hline ?_
    rw [heq]
    exact List.mem_append_right _ (List.mem_append_right _ hmem)
  refine ⟨h.1, ?_⟩
  rw [heq]
  exact (h.2.append_gap hafter hafter').gap_append hbefore

/-- A line before more lines. -/
theorem Writes.append_line (h : p.Writes line) (h' : q.Writes src) :
    Program.Writes (p ++ q) (line ++ asciiByte '\n' :: src) := by
  refine ⟨List.forall_mem_append.mpr ⟨h.1, h'.1⟩, ?_⟩
  show Written none ((p ++ q).flatMap Record.tokens) _
  rw [List.flatMap_append]
  exact h.2.append_line h'.2

/-- Nor does the carriage return at its end. -/
theorem Writes.of_withoutReturn (h : p.Writes (withoutReturn line)) : p.Writes line := by
  unfold withoutReturn at h
  by_cases hreturn : line.getLast? = some (asciiByte '\r')
  · rw [if_pos hreturn] at h
    obtain ⟨front, rfl⟩ := List.getLast?_eq_some_iff.mp hreturn
    rw [List.dropLast_concat] at h
    have hgap : Gap (String.utf8EncodeChar '\r' ++ []) := Gap.blank (by decide) Gap.nil
    exact ⟨h.1, h.2.append_gap hgap (by decide)⟩
  · rwa [if_neg hreturn] at h

/-- **A text writes what its lines write.**  If every line that is read from a text writes a program,
the text writes these programs one after the other. -/
theorem writes_of_linesOf {f : Bytes → Program} (text : Bytes) (before : Array Bytes)
    (hwhole : (linesOf text before).2 = false) :
    ∃ lines, (linesOf text before).1 = before.toList ++ lines ∧
      ((∀ line ∈ lines, asciiByte '\n' ∉ line → (f line).Writes line) →
        Program.Writes (lines.flatMap f) text) := by
  -- along the lines that are read, with those read before kept in front
  fun_induction linesOf text before with
  | case1 before => exact ⟨[], (List.append_nil _).symm, fun _ => writes_nil⟩
  | case2 text before hne line hlong => exact absurd hwhole (by simp)
  | case3 text before hne line hshort ih =>
      obtain ⟨lines, hlines, hwrites⟩ := ih hwhole
      refine ⟨withoutReturn line :: lines, by rw [hlines]; simp, ?_⟩
      intro hall
      have hline : asciiByte '\n' ∉ line := by
        intro hmem
        have hne := List.all_eq_true.mp List.all_takeWhile _ hmem
        exact absurd rfl (of_decide_eq_true hne)
      have hfirst : (f (withoutReturn line)).Writes line :=
        (hall _ List.mem_cons_self (newline_not_mem_withoutReturn hline)).of_withoutReturn
      have hrest := hwrites fun other hother => hall other (List.mem_cons_of_mem _ hother)
      -- the text is its first line, then nothing or a newline and the rest
      have htext : text = line ++ text.dropWhile (· ≠ asciiByte '\n') :=
        List.takeWhile_append_dropWhile.symm
      rw [List.flatMap_cons]
      cases hdrop : text.dropWhile (· ≠ asciiByte '\n') with
      | nil =>
          -- the last line of a text that does not end with a newline
          have hnone : lines = [] := by
            rw [hdrop, List.drop_nil, linesOf_nil] at hlines
            simpa using hlines
          rw [htext, hdrop, hnone, List.flatMap_nil, List.append_nil, List.append_nil]
          exact hfirst
      | cons b rest =>
          have hb : b = asciiByte '\n' := by
            have hhead := List.head?_dropWhile_not (· ≠ asciiByte '\n') text
            rw [hdrop] at hhead
            simpa using hhead
          rw [hdrop] at hrest
          rw [htext, hdrop, hb]
          exact hfirst.append_line hrest

end Program

end Quartet
