/-
  Quartet.Proofs.Source.Soundness
  ───────────────────────────────
  **WHAT IS PARSED IS WRITTEN.**

  A cursor stands before a text.  Every reader that succeeds takes a form of its tokens off the
  front of that text and leaves the cursor before the rest:

    • `Cursor.Before` — the text that a cursor stands before,
    • `Continues` — going from one text to another over a list of tokens, which composes,
    • `Cursor.takes_record` — a record that is read takes the forms of its tokens,
    • `Program.writes_of_parse` — a parsed text writes the program it is parsed as.
-/
import Quartet.Proofs.Source.Grammar

namespace Quartet

/-! ## §1. Cursors and texts. -/

namespace Cursor

/-- The cursor stands before a text. -/
def Before (c : Cursor) (src : Bytes) : Prop := c.rest = glyphs src

theorem before_start (file src : Bytes) : (start file src).Before src := rfl

theorem Before.eq_nil {c : Cursor} {src : Bytes} (h : c.Before src) (hrest : c.rest = []) :
    src = [] := by
  rw [← unread_glyphs src, ← show c.rest = glyphs src from h, hrest]
  rfl

theorem at?_eq_false_iff {c : Cursor} {src : Bytes} (h : c.Before src) {p : Char → Bool} :
    c.at? p = false ↔ Stops p src := by
  unfold at? Stops
  rw [← show c.rest = glyphs src from h]
  cases c.rest with
  | nil => simp
  | cons g gs => simp

theorem at?_eq_of_at?_ne {c : Cursor} {k : Char} (hne : c.rest ≠ [])
    (h : c.at? (· ≠ k) = false) : c.at? (· = k) = true := by
  unfold at? at h ⊢
  cases hrest : c.rest with
  | nil => exact absurd hrest hne
  | cons g gs =>
      rw [hrest] at h
      simpa using h

/-- A character that is looked at and found stands in the text. -/
theorem before_next_of_at? {c : Cursor} {src : Bytes} (h : c.Before src) {p : Char → Bool}
    (hp : p Glyph.replacement = false) (hat : c.at? p = true) :
    ∃ d src', p d = true ∧ src = String.utf8EncodeChar d ++ src' ∧ c.next.Before src' := by
  unfold at? at hat
  unfold next
  split at hat
  · exact absurd hat (by decide)
  · next g gs hrest =>
    obtain ⟨hread, src', rfl, hgs⟩ := glyphs_eq_cons (h.symm.trans hrest)
    refine ⟨g.char, src', hat, ?_, hgs⟩
    rw [hread.bytes_of_class hp hat]

theorem before_next_of_at?_mark {c : Cursor} {src : Bytes} (h : c.Before src) {k : Char}
    (hk : k.toNat < 0x80) (hat : c.at? (· = k) = true) :
    ∃ src', src = asciiByte k :: src' ∧ c.next.Before src' := by
  have hrepl : decide (Glyph.replacement = k) = false := by
    rw [decide_eq_false_iff_not]
    rintro rfl
    exact absurd hk (by decide)
  obtain ⟨d, src', hd, hsrc, hnext⟩ := before_next_of_at? h hrepl hat
  rw [of_decide_eq_true hd, utf8EncodeChar_ascii hk] at hsrc
  exact ⟨src', hsrc, hnext⟩

/-- Moving past a run leaves the cursor before a text that does not continue it. -/
theorem before_skipRun {c : Cursor} {src : Bytes} (h : c.Before src) (p : Char → Bool) :
    ∃ src', src = unread (c.run p) ++ src' ∧ (c.skipRun p).Before src' ∧ Stops p src' := by
  have hglyphs : glyphs src = c.run p ++ (c.skipRun p).rest := by
    rw [← show c.rest = glyphs src from h]
    exact List.takeWhile_append_dropWhile.symm
  obtain ⟨hsrc, hrest⟩ := glyphs_eq_append hglyphs
  refine ⟨unread (c.skipRun p).rest, hsrc, hrest.symm, ?_⟩
  intro g hg
  rw [hrest] at hg
  have hstop := List.head?_dropWhile_not (fun g : Glyph => p g.char) c.rest
  rw [show (c.rest.dropWhile fun g => p g.char).head? = some g from hg] at hstop
  simpa using hstop

theorem read_of_mem_run {c : Cursor} {src : Bytes} (h : c.Before src) {p : Char → Bool}
    {g : Glyph} (hg : g ∈ c.run p) : g.Read ∧ p g.char = true := by
  have hmem : g ∈ glyphs src := by
    rw [← show c.rest = glyphs src from h]
    exact (List.takeWhile_prefix _).subset hg
  have hall : ∀ g ∈ c.run p, p g.char = true := List.all_eq_true.mp List.all_takeWhile
  exact ⟨Glyph.read_of_mem hmem, hall g hg⟩

/-- A run of characters that no stray byte reads as is well-formed text. -/
theorem run_eq_map_ofChar {c : Cursor} {src : Bytes} (h : c.Before src) {p : Char → Bool}
    (hp : p Glyph.replacement = false) :
    c.run p = ((c.run p).map Glyph.char).map Glyph.ofChar
      ∧ ∀ d ∈ (c.run p).map Glyph.char, p d = true := by
  refine ⟨?_, ?_⟩
  · rw [List.map_map]
    refine (List.map_id (c.run p)).symm.trans (List.map_congr_left ?_)
    intro g hg
    obtain ⟨hread, hchar⟩ := read_of_mem_run h hg
    refine hread.eq_ofChar ?_
    intro hrepl
    rw [hrepl, hp] at hchar
    exact absurd hchar (by decide)
  · intro d hd
    obtain ⟨g, hg, rfl⟩ := List.mem_map.mp hd
    exact (read_of_mem_run h hg).2

end Cursor

/-! ## §2. Going on over tokens. -/

/-- The text may stand right after the token `prev`: it does not continue a name that ends
there. -/
def Follows (prev : Option Token) (src : Bytes) : Prop :=
  ∀ t, prev = some t → t.endsInName = true → Stops isNamePart src

theorem follows_none (src : Bytes) : Follows none src := by
  intro t ht
  exact absurd ht (by simp)

/-- From the text `src` over the tokens `ts` to the text `src'`: whatever `src'` writes, `src` writes
with `ts` before it. -/
def Continues (src : Bytes) (ts : List Token) (src' : Bytes) : Prop :=
  ∀ more, (∀ prev, Follows prev src' → Written prev more src') →
    ∀ prev, Follows prev src → Written prev (ts ++ more) src

namespace Continues

theorem refl (src : Bytes) : Continues src [] src := by
  intro more hmore
  exact hmore

theorem trans {src mid src' : Bytes} {ts us : List Token} (h : Continues src ts mid)
    (h' : Continues mid us src') : Continues src (ts ++ us) src' := by
  intro more hmore
  rw [List.append_assoc]
  exact h (us ++ more) (h' more hmore)

/-- Over a gap, to what stands after it. -/
theorem ofGap {gap src : Bytes} (hgap : Gap gap) : Continues (gap ++ src) [] src := by
  intro more hmore prev hprev
  -- An empty gap keeps what stands on its left; any other one divides whatever stands there.
  by_cases hnil : gap = []
  · subst hnil
    exact hmore prev hprev
  · exact (hmore none (follows_none src)).after_gap hgap hnil prev

/-- Over a gap at the end. -/
theorem ofLastGap {gap : Bytes} (hgap : LastGap gap) : Continues gap [] [] := by
  intro more hmore prev _
  rw [(hmore none (follows_none [])).eq_nil rfl]
  exact Written.done hgap

/-- Over a form of a token. -/
theorem ofForm {t : Token} {form src : Bytes} (hform : Spells t form)
    (hend : t.endsInName = true → Stops isNamePart src) : Continues (form ++ src) [t] src := by
  intro more hmore prev hprev
  refine Written.token Gap.nil ?_ hform (hmore (some t) ?_)
  · rintro - ⟨p, rfl, hp, ht⟩
    have hstops := hprev p rfl hp
    obtain ⟨c, tail, rfl, hc⟩ := hform.opens
    rw [List.append_assoc, stops_utf8EncodeChar_append, hc.isNamePart_eq, ht] at hstops
    exact absurd hstops (by decide)
  · intro u hu hends
    rw [← Option.some.inj hu] at hends
    exact hend hends

end Continues

/-! ## §3. Gaps. -/

namespace Cursor

/-- A cursor before a text of which a gap has been passed, unless the text ended with it. -/
def Passed (src : Bytes) (d : Cursor) : Prop :=
  (∃ gap src', Gap gap ∧ src = gap ++ src' ∧ d.Before src') ∨ LastGap src ∧ d.Before []

theorem Passed.gap_append {gap src : Bytes} {d : Cursor} (hgap : Gap gap) (h : Passed src d) :
    Passed (gap ++ src) d := by
  rcases h with ⟨gap', src', hgap', rfl, hd⟩ | ⟨hlast, hd⟩
  · exact Or.inl ⟨gap ++ gap', src', hgap.append hgap', (List.append_assoc _ _ _).symm, hd⟩
  · exact Or.inr ⟨hlast.append_left hgap, hd⟩

/-- Between comments the gap is passed as it stands; inside one, with the comment's start before
it. -/
theorem passed_skipGap_go {gs : List Glyph} {src : Bytes} (h : glyphs src = gs) :
    (∀ pos, Passed src (skipGap.go false pos gs))
      ∧ ∀ pos body, asciiByte '\n' ∉ body →
        Passed (asciiByte ';' :: (body ++ src)) (skipGap.go true pos gs) := by
  -- Both at once: a semicolon leads from the first to the second, a newline back.
  induction gs generalizing src with
  | nil =>
      have hsrc : src = [] := by
        rw [← unread_glyphs src, h]
        rfl
      subst hsrc
      refine ⟨?_, ?_⟩
      · intro pos
        exact Or.inr ⟨LastGap.closed Gap.nil, rfl⟩
      · intro pos body hbody
        rw [List.append_nil]
        exact Or.inr ⟨LastGap.comment Gap.nil hbody, rfl⟩
  | cons g gs ih =>
      obtain ⟨hread, rest, rfl, hgs⟩ := glyphs_eq_cons h
      obtain ⟨ihgap, ihcomment⟩ := ih hgs.symm
      refine ⟨?_, ?_⟩
      · intro pos
        unfold skipGap.go
        rw [if_neg (by decide)]
        split
        · next hsemi =>
          rw [hread.bytes_of_ascii hsemi (by decide)]
          exact ihcomment _ [] List.not_mem_nil
        · split
          · next hblank =>
            rw [hread.bytes_of_class isBlank_replacement hblank]
            have hgap : Gap (String.utf8EncodeChar g.char) := by
              have hone := Gap.blank hblank Gap.nil
              rwa [List.append_nil] at hone
            exact Passed.gap_append hgap (ihgap _)
          · exact Or.inl ⟨[], g.bytes ++ rest, Gap.nil, rfl, h.symm⟩
      · intro pos body hbody
        unfold skipGap.go
        rw [if_pos rfl]
        by_cases hnl : g.char = '\n'
        · rw [hread.bytes_of_ascii hnl (by decide), decide_eq_false (by simpa using hnl)]
          have hgap := Passed.gap_append (Gap.comment hbody Gap.nil) (ihgap (pos.advance g))
          rwa [List.cons_append, List.append_assoc] at hgap
        · -- the comment goes on and its body grows by this glyph
          rw [decide_eq_true hnl, ← List.append_assoc]
          refine ihcomment _ (body ++ g.bytes) ?_
          rw [List.mem_append, hread.asciiByte_mem_iff (by decide)]
          rintro (hmem | hchar)
          · exact hbody hmem
          · exact hnl hchar

/-- The cursor `d` stands behind the tokens `ts` of a text. -/
def Takes (src : Bytes) (ts : List Token) (d : Cursor) : Prop :=
  ∃ src', d.Before src' ∧ Continues src ts src'

theorem Takes.trans {src : Bytes} {ts us : List Token} {c d : Cursor} (h : Takes src ts c)
    (h' : ∀ src', c.Before src' → Takes src' us d) : Takes src (ts ++ us) d := by
  obtain ⟨mid, hmid, hts⟩ := h
  obtain ⟨src', hsrc', hus⟩ := h' mid hmid
  exact ⟨src', hsrc', hts.trans hus⟩

theorem takes_skipGap {c : Cursor} {src : Bytes} (h : c.Before src) : Takes src [] c.skipGap := by
  rcases (passed_skipGap_go h.symm).1 c.pos with ⟨gap, src', hgap, rfl, hd⟩ | ⟨hlast, hd⟩
  · exact ⟨src', hd, Continues.ofGap hgap⟩
  · exact ⟨[], hd, Continues.ofLastGap hlast⟩

/-! ## §4. Tokens. -/

/-- A name that is read is one, and nothing after it continues it. -/
theorem before_skipName {c : Cursor} {src : Bytes} (h : c.Before src)
    (hat : c.at? isNameStart = true) :
    IsName c.name ∧ ∃ src', src = c.name ++ src' ∧ c.skipName.Before src'
      ∧ Stops isNamePart src' := by
  refine ⟨?_, before_skipRun h isNamePart⟩
  obtain ⟨hchars, hparts⟩ := run_eq_map_ofChar h isNamePart_replacement
  -- The run starts with the character that was looked at.
  obtain ⟨g, gs, hrun, hstart⟩ : ∃ g gs, c.run isNamePart = g :: gs ∧ isNameStart g.char = true := by
    unfold at? at hat
    split at hat
    · exact absurd hat (by decide)
    · next g rest hrest =>
      refine ⟨g, rest.takeWhile fun g => isNamePart g.char, ?_, hat⟩
      unfold run
      rw [hrest, List.takeWhile_cons, if_pos (isNamePart_of_isNameStart hat)]
  rw [isName_iff]
  refine ⟨g.char, gs.map Glyph.char, hstart, ?_, ?_⟩
  · intro d hd
    refine hparts d ?_
    rw [hrun]
    exact List.mem_cons_of_mem _ hd
  · show unread (c.run isNamePart) = _
    rw [hchars, unread_map_ofChar, hrun]
    rfl

/-- Digits that are read are a numeral. -/
theorem before_skipDigits {c : Cursor} {src : Bytes} (h : c.Before src)
    (hne : c.run isAsciiDigit ≠ []) :
    ∃ ds src', IsNumeral ds ∧ digitsValue (c.run isAsciiDigit) = numeralValue ds
      ∧ src = utf8 ds ++ src' ∧ (c.skipRun isAsciiDigit).Before src' := by
  obtain ⟨hchars, hdigits⟩ := run_eq_map_ofChar h (p := isAsciiDigit) (by decide)
  obtain ⟨src', hsrc, hnext, _⟩ := before_skipRun h isAsciiDigit
  refine ⟨(c.run isAsciiDigit).map Glyph.char, src', ⟨?_, ?_⟩, rfl, ?_, hnext⟩
  · intro hnil
    exact hne (List.map_eq_nil_iff.mp hnil)
  · intro d hd
    exact isAsciiDigit_iff.mp (hdigits d hd)
  · rw [hsrc, ← unread_map_ofChar, ← hchars]

theorem takes_registerOperand {c d : Cursor} {src : Bytes} {t : Token} (h : c.Before src)
    (hat : c.at? (· = '$') = true) (hok : c.registerOperand = .ok (t, d)) :
    t.isOperand = true ∧ Takes src [t] d := by
  obtain ⟨mid, rfl, hmid⟩ := before_next_of_at?_mark h (by decide) hat
  unfold registerOperand at hok
  simp only at hok
  split at hok
  · exact absurd hok (by simp)
  · next hne =>
    split at hok
    · exact absurd hok (by simp)
    · next hrange =>
      obtain ⟨rfl, rfl⟩ := Prod.mk.inj (Except.ok.inj hok)
      obtain ⟨ds, src', hds, hvalue, rfl, hd⟩ := before_skipDigits hmid hne
      refine ⟨rfl, src', hd, ?_⟩
      have hindex : (UInt8.ofNat (digitsValue (c.next.run isAsciiDigit))).toNat = numeralValue ds := by
        rw [UInt8.toNat_ofNat_of_lt' (show _ < 256 by omega), hvalue]
      exact Continues.ofForm (Spells.register hds hindex) nofun

theorem sign_eq_nil_iff {c : Cursor} : c.sign = [] ↔ c.at? (· = '-') = false := by
  unfold sign at?
  cases c.rest with
  | nil => simp
  | cons g gs => simp

theorem takes_immediateOperand {c d : Cursor} {src : Bytes} {t : Token} (h : c.Before src)
    (hat : c.at? (· = '#') = true) (hok : c.immediateOperand = .ok (t, d)) :
    t.isOperand = true ∧ Takes src [t] d := by
  obtain ⟨mid, rfl, hmid⟩ := before_next_of_at?_mark h (by decide) hat
  unfold immediateOperand at hok
  simp only at hok
  split at hok
  · exact absurd hok (by simp)
  · next hne =>
    split at hok
    · exact absurd hok (by simp)
    · next hrange =>
      obtain ⟨rfl, rfl⟩ := Prod.mk.inj (Except.ok.inj hok)
      have hvalue := Int32.toInt_ofInt_of_le
        (n := signedValue c.next.sign (c.next.skipSign.run isAsciiDigit)) (by omega) (by omega)
      refine ⟨rfl, ?_⟩
      -- Without a minus sign the digits follow the mark, with one they stand behind it.
      by_cases hsign : c.next.sign = []
      · unfold skipSign at hne ⊢
        rw [if_pos hsign] at hne ⊢
        obtain ⟨ds, src', hds, hdigits, rfl, hd⟩ := before_skipDigits hmid hne
        rw [skipSign, if_pos hsign, signedValue, if_pos hsign, hdigits] at hvalue
        refine ⟨src', hd, ?_⟩
        rw [signedValue, if_pos hsign, hdigits]
        exact Continues.ofForm (Spells.immediate hds hvalue) nofun
      · unfold skipSign at hne ⊢
        rw [if_neg hsign] at hne ⊢
        have hminus : c.next.at? (· = '-') = true := by
          rwa [sign_eq_nil_iff, Bool.not_eq_false] at hsign
        obtain ⟨rest, rfl, hrest⟩ := before_next_of_at?_mark hmid (by decide) hminus
        obtain ⟨ds, src', hds, hdigits, rfl, hd⟩ := before_skipDigits hrest hne
        rw [skipSign, if_neg hsign, signedValue, if_neg hsign, hdigits] at hvalue
        refine ⟨src', hd, ?_⟩
        rw [signedValue, if_neg hsign, hdigits]
        exact Continues.ofForm (Spells.negative hds hvalue) nofun

theorem takes_referenceOperand {c d : Cursor} {src : Bytes} {t : Token} (h : c.Before src)
    (hat : c.at? (· = '@') = true) (hok : c.referenceOperand = .ok (t, d)) :
    t.isOperand = true ∧ Takes src [t] d := by
  obtain ⟨mid, rfl, hmid⟩ := before_next_of_at?_mark h (by decide) hat
  unfold referenceOperand at hok
  split at hok
  · next hstart =>
    obtain ⟨rfl, rfl⟩ := Prod.mk.inj (Except.ok.inj hok)
    obtain ⟨hname, src', hsrc, hd, hstops⟩ := before_skipName hmid hstart
    refine ⟨rfl, src', hd, ?_⟩
    rw [hsrc, ← List.cons_append]
    exact Continues.ofForm (Spells.reference hname) (fun _ => hstops)
  · exact absurd hok (by simp)

theorem takes_stringOperand {c d : Cursor} {src : Bytes} {t : Token} (h : c.Before src)
    (hat : c.at? (· = '\'') = true) (hok : c.stringOperand = .ok (t, d)) :
    t.isOperand = true ∧ Takes src [t] d := by
  obtain ⟨mid, rfl, hmid⟩ := before_next_of_at?_mark h (by decide) hat
  unfold stringOperand at hok
  simp only at hok
  split at hok
  · exact absurd hok (by simp)
  · next hended =>
    obtain ⟨rfl, rfl⟩ := Prod.mk.inj (Except.ok.inj hok)
    obtain ⟨rest, rfl, hrest, hstops⟩ := before_skipRun hmid (· ≠ '\'')
    -- The text goes on, and with the one character that ends the run.
    have hquote : (c.next.skipRun (· ≠ '\'')).at? (· = '\'') = true := by
      exact at?_eq_of_at?_ne hended ((at?_eq_false_iff hrest).mpr hstops)
    obtain ⟨src', rfl, hd⟩ := before_next_of_at?_mark hrest (by decide) hquote
    have htext : asciiByte '\'' ∉ unread (c.next.run (· ≠ '\'')) := by
      rw [asciiByte_mem_unread_iff (fun g hg => (read_of_mem_run hmid hg).1) (by decide)]
      rintro ⟨g, hg, hchar⟩
      exact absurd hchar (of_decide_eq_true (read_of_mem_run hmid hg).2)
    refine ⟨rfl, src', hd, ?_⟩
    rw [List.append_cons, ← List.cons_append]
    exact Continues.ofForm (Spells.string htext) nofun

theorem takes_operand {c d : Cursor} {src : Bytes} {t : Token} (h : c.Before src)
    (hok : c.operand = some (.ok (t, d))) : t.isOperand = true ∧ Takes src [t] d := by
  unfold operand at hok
  split at hok
  · next hat => exact takes_registerOperand h hat (Option.some.inj hok)
  · split at hok
    · next hat => exact takes_immediateOperand h hat (Option.some.inj hok)
    · split at hok
      · next hat => exact takes_referenceOperand h hat (Option.some.inj hok)
      · split at hok
        · next hat => exact takes_stringOperand h hat (Option.some.inj hok)
        · exact absurd hok (by simp)

/-! ## §5. Records. -/

theorem takes_operands {limit : Nat} {c d : Cursor} {src : Bytes} {ts : List Token}
    (h : c.Before src) (hok : operands limit c = .ok (ts, d)) :
    ts.length ≤ limit ∧ (∀ t ∈ ts, t.isOperand = true) ∧ Takes src ts d := by
  induction limit generalizing c src ts with
  | zero =>
      obtain ⟨rfl, rfl⟩ := Prod.mk.inj (Except.ok.inj hok)
      exact ⟨Nat.le_refl _, by simp, src, h, Continues.refl src⟩
  | succ limit ih =>
      unfold operands at hok
      split at hok
      · obtain ⟨rfl, rfl⟩ := Prod.mk.inj (Except.ok.inj hok)
        exact ⟨Nat.zero_le _, by simp, takes_skipGap h⟩
      · exact absurd hok (by simp)
      · next t after hop =>
        split at hok
        · exact absurd hok (by simp)
        · next us final hrest =>
          obtain ⟨rfl, rfl⟩ := Prod.mk.inj (Except.ok.inj hok)
          obtain ⟨mid, hmid, hgap⟩ := takes_skipGap h
          obtain ⟨ht, rest, hafter, hform⟩ := takes_operand hmid hop
          obtain ⟨hlen, hus, src', hfinal, hmore⟩ := ih hafter hrest
          refine ⟨Nat.succ_le_succ hlen, ?_, src', hfinal, (hgap.trans hform).trans hmore⟩
          intro u hu
          rcases List.mem_cons.mp hu with rfl | hu
          · exact ht
          · exact hus u hu

theorem takes_label {c : Cursor} {src : Bytes} (h : c.Before src) :
    Takes src (c.label.1.toList.map Token.label) c.label.2 := by
  unfold label
  split
  · next hlabel =>
    rw [Bool.and_eq_true] at hlabel
    obtain ⟨hname, rest, hsrc, hrest, _⟩ := before_skipName h hlabel.1
    obtain ⟨mid, rfl, hmid⟩ := before_next_of_at?_mark hrest (by decide) hlabel.2
    have hform : Takes src [Token.label c.name] c.skipName.next := by
      refine ⟨mid, hmid, ?_⟩
      rw [hsrc, List.append_cons]
      exact Continues.ofForm (Spells.label hname) nofun
    exact hform.trans (fun _ => takes_skipGap)
  · exact ⟨src, h, Continues.refl src⟩

theorem takes_head {label : Option Bytes} {c d : Cursor} {src : Bytes} {t : Token}
    (h : c.Before src) (hok : head label c = .ok (t, d)) : t.isHead = true ∧ Takes src [t] d := by
  unfold head at hok
  split at hok
  · next hdot =>
    obtain ⟨mid, rfl, hmid⟩ := before_next_of_at?_mark h (by decide) hdot
    split at hok
    · next hstart =>
      obtain ⟨rfl, rfl⟩ := Prod.mk.inj (Except.ok.inj hok)
      obtain ⟨hname, src', hsrc, hd, hstops⟩ := before_skipName hmid hstart
      refine ⟨rfl, src', hd, ?_⟩
      rw [hsrc, ← List.cons_append]
      exact Continues.ofForm (Spells.directive hname) (fun _ => hstops)
    · exact absurd hok (by simp)
  · split at hok
    · next hstart =>
      obtain ⟨hname, src', hsrc, hd, hstops⟩ := before_skipName h hstart
      split at hok
      · next op hop =>
        obtain ⟨rfl, rfl⟩ := Prod.mk.inj (Except.ok.inj hok)
        refine ⟨rfl, src', hd, ?_⟩
        rw [hsrc]
        exact Continues.ofForm (Spells.op hname hop) (fun _ => hstops)
      · exact absurd hok (by simp)
    · split at hok <;> exact absurd hok (by simp)

/-- **A record that is read takes the forms of its tokens.** -/
theorem takes_record {c d : Cursor} {src : Bytes} {r : Record} (h : c.Before src)
    (hok : c.record = .ok (r, d)) : r.Shaped ∧ Takes src r.tokens d := by
  unfold record at hok
  split at hok
  · exact absurd hok (by simp)
  · next head after hhead =>
    split at hok
    · exact absurd hok (by simp)
    · next operands final hoperands =>
      obtain ⟨rfl, rfl⟩ := Prod.mk.inj (Except.ok.inj hok)
      obtain ⟨mid, hmid, hlabel⟩ := takes_label h
      obtain ⟨hshape, rest, hafter, hform⟩ := takes_head hmid hhead
      obtain ⟨hlen, hops, src', hfinal, hmore⟩ := takes_operands hafter hoperands
      exact ⟨⟨hshape, hlen, hops⟩, src', hfinal, hlabel.trans (hform.trans hmore)⟩

/-- The records that are read after others, with the text they were read from. -/
theorem writes_of_records {c : Cursor} {before : Array Record} {src : Bytes} {p : Program}
    (h : c.Before src) (hok : c.records before = .ok p) :
    ∃ q, p = before.toList ++ q ∧ (∀ r ∈ q, r.Shaped)
      ∧ ∀ prev, Follows prev src → Written prev (Program.tokens q) src := by
  -- By the recursion of `records`: the gap and the record stand before what the hypothesis writes.
  induction c, before using records.induct generalizing src with
  | case1 c before hend =>
      rw [records, if_pos hend] at hok
      obtain ⟨src', hsrc', hgap⟩ := takes_skipGap h
      have hnil : src' = [] := hsrc'.eq_nil hend
      subst hnil
      refine ⟨[], ?_, by simp, ?_⟩
      · rw [List.append_nil]
        exact (Except.ok.inj hok).symm
      · exact hgap [] (fun _ _ => Written.done (LastGap.closed Gap.nil))
  | case2 c before hne e he =>
      rw [records, if_neg hne] at hok
      split at hok
      · exact absurd hok (by simp)
      · next r after hr => exact absurd (he.symm.trans hr) (by simp)
  | case3 c before hne r after hr ih =>
      rw [records, if_neg hne] at hok
      split at hok
      · exact absurd hok (by simp)
      · next r' after' hr' =>
        obtain ⟨rfl, rfl⟩ := Prod.mk.inj (Except.ok.inj (hr.symm.trans hr'))
        obtain ⟨mid, hmid, hgap⟩ := takes_skipGap h
        obtain ⟨hshaped, rest, hafter, hrecord⟩ := takes_record hmid hr
        obtain ⟨q, rfl, hq, hwritten⟩ := ih hafter hok
        refine ⟨r :: q, ?_, ?_, ?_⟩
        · rw [Array.toList_push, List.append_assoc]
          rfl
        · intro s hs
          rcases List.mem_cons.mp hs with rfl | hs
          · exact hshaped
          · exact hq s hs
        · exact (hgap.trans hrecord) (Program.tokens q) hwritten

end Cursor

/-- **A text that is parsed writes the program it is parsed as.** -/
theorem Program.writes_of_parse {file src : Bytes} {p : Program}
    (h : Program.parse file src = .ok p) : p.Writes src := by
  obtain ⟨q, rfl, hq, hwritten⟩ := Cursor.writes_of_records (Cursor.before_start file src) h
  exact ⟨hq, hwritten none (follows_none src)⟩

end Quartet
