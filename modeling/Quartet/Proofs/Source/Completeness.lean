/-
  Quartet.Proofs.Source.Completeness
  ──────────────────────────────────
  **WHAT IS WRITTEN IS PARSED.**

  The readers find the tokens of a written text one by one.  A gap is passed to its end and not
  beyond (`Cursor.opened_skipGap`), a name or numeral is taken whole (`Cursor.before_run`), and the
  three ways in which a record may go on (another operand, another record, the end) differ in
  their first character.

    • `Program.parse_of_writes` — a text that writes a program is parsed as it,
    • `parse_eq_ok_iff_writes` — the texts that are parsed as a program are those that write it.
-/
import Quartet.Proofs.Source.Soundness

namespace Quartet

namespace Cursor

/-! ## §1. Looking and moving on. -/

section

variable {c : Cursor} {k : Char} {src : Bytes}

theorem at?_of_before (h : c.Before (String.utf8EncodeChar k ++ src)) (p : Char → Bool) :
    c.at? p = p k := by
  have hrest : c.rest = Glyph.ofChar k :: glyphs src := by
    rw [← glyphs_utf8EncodeChar_append]
    exact h
  unfold at?
  rw [hrest]
  rfl

theorem before_next (h : c.Before (String.utf8EncodeChar k ++ src)) : c.next.Before src := by
  have hrest : c.rest = Glyph.ofChar k :: glyphs src := by
    rw [← glyphs_utf8EncodeChar_append]
    exact h
  unfold next
  split
  · next hnil => exact absurd (hnil.symm.trans hrest) (by simp)
  · next g gs hcons => exact (List.cons.inj (hcons.symm.trans hrest)).2

/-- A run ends where the text stops being in its class. -/
theorem before_run {p : Char → Bool} {gs : List Glyph} (h : c.rest = gs ++ glyphs src)
    (hgs : ∀ g ∈ gs, p g.char = true) (hstops : Stops p src) :
    c.run p = gs ∧ (c.skipRun p).Before src := by
  have hnone : (glyphs src).takeWhile (fun g => p g.char) = []
      ∧ (glyphs src).dropWhile (fun g => p g.char) = glyphs src := by
    unfold Stops at hstops
    cases hsrc : glyphs src with
    | nil => exact ⟨rfl, rfl⟩
    | cons g more =>
        have hg : p g.char = false := by
          refine hstops g ?_
          rw [hsrc]
          rfl
        rw [List.takeWhile_cons, List.dropWhile_cons, hg]
        exact ⟨rfl, rfl⟩
  refine ⟨?_, ?_⟩
  · unfold run
    rw [h, List.takeWhile_append_of_pos hgs, hnone.1, List.append_nil]
  · show c.rest.dropWhile (fun g => p g.char) = glyphs src
    rw [h, List.dropWhile_append_of_pos hgs, hnone.2]

theorem before_run_utf8 {p : Char → Bool} {cs : List Char} (h : c.Before (utf8 cs ++ src))
    (hcs : ∀ d ∈ cs, p d = true) (hstops : Stops p src) :
    c.run p = cs.map Glyph.ofChar ∧ (c.skipRun p).Before src := by
  refine before_run ?_ ?_ hstops
  · rw [← glyphs_utf8_append]
    exact h
  · intro g hg
    obtain ⟨d, hd, rfl⟩ := List.mem_map.mp hg
    exact hcs d hd

/-- A name is taken whole. -/
theorem name_of_before {name : Bytes} (hname : IsName name) (h : c.Before (name ++ src))
    (hstops : Stops isNamePart src) :
    c.at? isNameStart = true ∧ c.name = name ∧ c.skipName.Before src := by
  obtain ⟨d, cs, hd, hcs, rfl⟩ := isName_iff.mp hname
  have hparts : ∀ e ∈ d :: cs, isNamePart e = true := by
    intro e he
    rcases List.mem_cons.mp he with rfl | he
    · exact isNamePart_of_isNameStart hd
    · exact hcs e he
  obtain ⟨hrun, hnext⟩ := before_run_utf8 h hparts hstops
  refine ⟨?_, ?_, hnext⟩
  · rw [utf8_cons, List.append_assoc] at h
    rw [at?_of_before h, hd]
  · unfold name
    rw [hrun, unread_map_ofChar]

/-- A numeral is taken whole. -/
theorem digits_of_before {ds : List Char} (hds : IsNumeral ds) (h : c.Before (utf8 ds ++ src))
    (hstops : Stops isAsciiDigit src) :
    c.run isAsciiDigit ≠ [] ∧ digitsValue (c.run isAsciiDigit) = numeralValue ds
      ∧ (c.skipRun isAsciiDigit).Before src := by
  obtain ⟨hrun, hnext⟩ := before_run_utf8 h (fun d hd => isAsciiDigit_iff.mpr (hds.2 d hd)) hstops
  refine ⟨?_, ?_, hnext⟩
  · rw [hrun]
    intro hnil
    exact hds.1 (List.map_eq_nil_iff.mp hnil)
  · unfold digitsValue
    rw [hrun, List.map_map]
    show numeralValue (ds.map id) = _
    rw [List.map_id]

end

/-! ## §2. Gaps. -/

/-- A comment is passed up to the newline that ends it. -/
theorem skipGap_go_comment {gs : List Glyph} (hgs : ∀ g ∈ gs, g.char ≠ '\n') (pos : Position)
    (more : List Glyph) :
    ∃ pos', skipGap.go true pos (gs ++ more) = skipGap.go true pos' more := by
  induction gs generalizing pos with
  | nil => exact ⟨pos, rfl⟩
  | cons g gs ih =>
      have hg : g.char ≠ '\n' := hgs g List.mem_cons_self
      rw [List.cons_append, skipGap.go, if_pos rfl, decide_eq_true hg]
      exact ih (fun h hh => hgs h (List.mem_cons_of_mem _ hh)) _

/-- A gap is passed, whatever follows it. -/
theorem skipGap_go_gap {gap : Bytes} (hgap : Gap gap) (pos : Position) (src : Bytes) :
    ∃ pos', skipGap.go false pos (glyphs (gap ++ src)) = skipGap.go false pos' (glyphs src) := by
  induction hgap generalizing pos with
  | nil => exact ⟨pos, rfl⟩
  | @blank d rest hd _ ih =>
      have hsemi : (Glyph.ofChar d).char ≠ ';' := by
        intro hchar
        rw [show d = ';' from hchar] at hd
        exact absurd hd (by decide)
      rw [List.append_assoc, glyphs_utf8EncodeChar_append, skipGap.go, if_neg (by decide),
          if_neg hsemi, if_pos (show (Glyph.ofChar d).isBlank = true from hd)]
      exact ih _
  | @comment body rest hbody _ ih =>
      rw [List.cons_append, List.append_assoc, List.cons_append, glyphs_asciiByte_cons (by decide),
          glyphs_append_ascii body (by decide), glyphs_asciiByte_cons (by decide), skipGap.go,
          if_neg (by decide), if_pos (show (Glyph.ofChar ';').char = ';' from rfl)]
      obtain ⟨mid, hmid⟩ := skipGap_go_comment (char_ne_of_asciiByte_not_mem (by decide) hbody)
        (pos.advance (Glyph.ofChar ';')) (Glyph.ofChar '\n' :: glyphs (rest ++ src))
      rw [hmid, skipGap.go, if_pos rfl]
      exact ih _

theorem skipGap_go_lastGap {gap : Bytes} (hgap : LastGap gap) (pos : Position) :
    (skipGap.go false pos (glyphs gap)).rest = [] := by
  cases hgap with
  | closed hgap =>
      obtain ⟨pos', hpos'⟩ := skipGap_go_gap hgap pos []
      rw [List.append_nil] at hpos'
      rw [hpos']
      rfl
  | @comment gap body hgap hbody =>
      obtain ⟨pos', hpos'⟩ := skipGap_go_gap hgap pos (asciiByte ';' :: body)
      rw [hpos', glyphs_asciiByte_cons (by decide), skipGap.go, if_neg (by decide),
          if_pos (show (Glyph.ofChar ';').char = ';' from rfl)]
      obtain ⟨last, hlast⟩ := skipGap_go_comment (char_ne_of_asciiByte_not_mem (by decide) hbody)
        (pos'.advance (Glyph.ofChar ';')) []
      rw [List.append_nil] at hlast
      rw [hlast]
      rfl

/-- A text at whose start the first of its tokens stands, without a gap. -/
inductive Opened : List Token → Bytes → Prop
  | done : Opened [] []
  | token {t : Token} {ts : List Token} {form rest : Bytes} (hform : Spells t form)
      (hrest : Written (some t) ts rest) : Opened (t :: ts) (form ++ rest)

theorem Opened.written {ts : List Token} {src : Bytes} (h : Opened ts src) :
    Written none ts src := by
  cases h with
  | done => exact Written.done (LastGap.closed Gap.nil)
  | token hform hrest =>
      refine Written.token Gap.nil ?_ hform hrest
      rintro - ⟨p, hp, _⟩
      exact absurd hp (by simp)

/-- **A gap is passed to its end and not beyond.** -/
theorem opened_skipGap {c : Cursor} {src : Bytes} {prev : Option Token} {ts : List Token}
    (h : c.Before src) (hw : Written prev ts src) :
    ∃ src', c.skipGap.Before src' ∧ Opened ts src' := by
  unfold skipGap
  rw [show c.rest = glyphs src from h]
  cases hw with
  | done hlast => exact ⟨[], skipGap_go_lastGap hlast c.pos, Opened.done⟩
  | @token prev t ts gap form rest hgap _ hform hrest =>
      obtain ⟨pos, hpos⟩ := skipGap_go_gap hgap c.pos (form ++ rest)
      refine ⟨form ++ rest, ?_, Opened.token hform hrest⟩
      rw [hpos]
      -- The first character of a token is neither white space nor a semicolon.
      obtain ⟨d, tail, rfl, hd⟩ := hform.opens
      have hsemi : (Glyph.ofChar d).char ≠ ';' := hd.ne (by decide) (by decide)
      have hblank : (Glyph.ofChar d).isBlank = false := hd.isBlank_eq
      rw [List.append_assoc, glyphs_utf8EncodeChar_append, skipGap.go, if_neg (by decide),
          if_neg hsemi, if_neg (by rw [hblank]; decide)]
      exact (glyphs_utf8EncodeChar_append d (tail ++ rest)).symm

/-! ## §3. Tokens. -/

section

variable {c : Cursor} {rest : Bytes}

theorem registerOperand_of_before {index : UInt8} {ds : List Char} (hds : IsNumeral ds)
    (hindex : index.toNat = numeralValue ds) (h : c.next.Before (utf8 ds ++ rest))
    (hstops : Stops isAsciiDigit rest) :
    ∃ d, c.registerOperand = .ok (.register index, d) ∧ d.Before rest := by
  obtain ⟨hne, hvalue, hd⟩ := digits_of_before hds h hstops
  have hrange : ¬255 < digitsValue (c.next.run isAsciiDigit) := by
    have hlt := index.toNat_lt
    omega
  refine ⟨_, ?_, hd⟩
  unfold registerOperand
  simp only
  rw [if_neg hne, if_neg hrange, hvalue, ← hindex, UInt8.ofNat_toNat]

/-- A number with or without a minus sign, which is at most one character. -/
theorem immediateOperand_of_before {value : Int32} {ds : List Char} (hds : IsNumeral ds)
    (h : c.next.skipSign.Before (utf8 ds ++ rest)) (hstops : Stops isAsciiDigit rest)
    (hvalue : value.toInt
      = if c.next.sign = [] then (numeralValue ds : Int) else -(numeralValue ds)) :
    ∃ d, c.immediateOperand = .ok (.immediate value, d) ∧ d.Before rest := by
  obtain ⟨hne, hdigits, hd⟩ := digits_of_before hds h hstops
  have hsigned : signedValue c.next.sign (c.next.skipSign.run isAsciiDigit) = value.toInt := by
    unfold signedValue
    rw [hdigits, hvalue]
  have hrange : ¬(value.toInt < -0x80000000 ∨ 0x80000000 ≤ value.toInt) := by
    have hlow := value.le_toInt
    have hhigh := value.toInt_lt
    omega
  refine ⟨_, ?_, hd⟩
  unfold immediateOperand
  simp only
  rw [if_neg hne, hsigned, if_neg hrange, Int32.ofInt_toInt]

/-- A numeral does not start with a minus sign. -/
theorem sign_of_before {ds : List Char} (hds : IsNumeral ds) (h : c.Before (utf8 ds ++ rest)) :
    c.sign = [] := by
  rw [sign_eq_nil_iff]
  obtain ⟨hne, hdigits⟩ := hds
  cases ds with
  | nil => exact absurd rfl hne
  | cons d ds =>
      rw [utf8_cons, List.append_assoc] at h
      rw [at?_of_before h, decide_eq_false_iff_not]
      rintro rfl
      exact absurd (hdigits '-' List.mem_cons_self) (by decide)

theorem stringOperand_of_before {text : Bytes} (htext : asciiByte '\'' ∉ text)
    (h : c.next.Before (text ++ asciiByte '\'' :: rest)) :
    ∃ d, c.stringOperand = .ok (.string text, d) ∧ d.Before rest := by
  have hrest : c.next.rest = glyphs text ++ glyphs (asciiByte '\'' :: rest) := by
    rw [← glyphs_append_ascii text (by decide)]
    exact h
  have hchars : ∀ g ∈ glyphs text, decide (g.char ≠ '\'') = true := by
    intro g hg
    exact decide_eq_true (char_ne_of_asciiByte_not_mem (by decide) htext g hg)
  have hstops : Stops (· ≠ '\'') (asciiByte '\'' :: rest) :=
    (stops_asciiByte_cons (by decide)).mpr (by decide)
  obtain ⟨hrun, hended⟩ := before_run hrest hchars hstops
  have hne : (c.next.skipRun (· ≠ '\'')).rest ≠ [] := by
    rw [show _ = glyphs (asciiByte '\'' :: rest) from hended, glyphs_asciiByte_cons (by decide)]
    exact List.cons_ne_nil _ _
  refine ⟨(c.next.skipRun (· ≠ '\'')).next, ?_, before_next (k := '\'') hended⟩
  unfold stringOperand
  simp only
  rw [if_neg hne, hrun, unread_glyphs]

/-- The first character tells which operand follows, if any. -/
theorem operand_of_before {k : Char} (h : c.Before (String.utf8EncodeChar k ++ rest)) :
    c.operand =
      if k = '$' then some c.registerOperand
      else if k = '#' then some c.immediateOperand
      else if k = '@' then some c.referenceOperand
      else if k = '\'' then some c.stringOperand
      else none := by
  unfold operand
  simp only [at?_of_before h, decide_eq_true_eq]

/-- **An operand that stands at the cursor is read.** -/
theorem operand_of_form {t : Token} {ts : List Token} {form : Bytes} (ht : t.isOperand = true)
    (hform : Spells t form) (hrest : Written (some t) ts rest) (h : c.Before (form ++ rest)) :
    ∃ d, c.operand = some (.ok (t, d)) ∧ d.Before rest := by
  cases hform with
  | op _ _ => exact absurd ht (by simp [Token.isOperand])
  | label _ => exact absurd ht (by simp [Token.isOperand])
  | directive _ => exact absurd ht (by simp [Token.isOperand])
  | @register index ds hds hindex =>
      have hmark : c.Before (String.utf8EncodeChar '$' ++ (utf8 ds ++ rest)) := h
      obtain ⟨d, hok, hd⟩ :=
        registerOperand_of_before hds hindex (before_next hmark) hrest.stops_isAsciiDigit
      exact ⟨d, (operand_of_before hmark).trans (congrArg some hok), hd⟩
  | @immediate value ds hds hvalue =>
      have hmark : c.Before (String.utf8EncodeChar '#' ++ (utf8 ds ++ rest)) := h
      have hsign := sign_of_before hds (before_next hmark)
      have hdigits : c.next.skipSign.Before (utf8 ds ++ rest) := by
        rw [skipSign, if_pos hsign]
        exact before_next hmark
      obtain ⟨d, hok, hd⟩ := immediateOperand_of_before hds hdigits hrest.stops_isAsciiDigit
        (by rw [if_pos hsign]; exact hvalue)
      exact ⟨d, (operand_of_before hmark).trans (congrArg some hok), hd⟩
  | @negative value ds hds hvalue =>
      have hmark : c.Before (String.utf8EncodeChar '#'
          ++ (String.utf8EncodeChar '-' ++ (utf8 ds ++ rest))) := h
      have hsign : c.next.sign ≠ [] := by
        rw [Ne, sign_eq_nil_iff, at?_of_before (before_next hmark)]
        decide
      have hdigits : c.next.skipSign.Before (utf8 ds ++ rest) := by
        rw [skipSign, if_neg hsign]
        exact before_next (before_next hmark)
      obtain ⟨d, hok, hd⟩ := immediateOperand_of_before hds hdigits hrest.stops_isAsciiDigit
        (by rw [if_neg hsign]; exact hvalue)
      exact ⟨d, (operand_of_before hmark).trans (congrArg some hok), hd⟩
  | @reference name hname =>
      have hmark : c.Before (String.utf8EncodeChar '@' ++ (name ++ rest)) := h
      obtain ⟨hstart, hname, hd⟩ :=
        name_of_before hname (before_next hmark) (hrest.stops_isNamePart rfl)
      have hok : c.referenceOperand = .ok (.reference name, c.next.skipName) := by
        unfold referenceOperand
        rw [if_pos hstart, hname]
      exact ⟨c.next.skipName, (operand_of_before hmark).trans (congrArg some hok), hd⟩
  | @string text htext =>
      have hmark : c.Before (String.utf8EncodeChar '\''
          ++ (text ++ asciiByte '\'' :: rest)) := by
        rw [List.append_cons text]
        exact h
      obtain ⟨d, hok, hd⟩ := stringOperand_of_before htext (before_next hmark)
      exact ⟨d, (operand_of_before hmark).trans (congrArg some hok), hd⟩

/-- Where no operand stands, none is read. -/
theorem operand_eq_none {ts : List Token} {src : Bytes} (h : c.Before src) (hts : Opened ts src)
    (hhead : ∀ t ∈ ts.head?, t.isOperand = false) : c.operand = none := by
  cases hts with
  | done =>
      unfold operand at?
      rw [show c.rest = [] from h]
      rfl
  | @token t ts form rest hform hrest =>
      have ht := hhead t rfl
      obtain ⟨k, tail, rfl, hk⟩ := hform.opens
      rw [List.append_assoc] at h
      rw [operand_of_before h]
      -- A label, a directive or an operation opens with none of the four marks.
      have hname : ∀ k', isNameStart k' = true →
          k' ≠ '$' ∧ k' ≠ '#' ∧ k' ≠ '@' ∧ k' ≠ '\'' := by
        intro k' hk'
        refine ⟨?_, ?_, ?_, ?_⟩ <;>
          · rintro rfl
            exact absurd hk' (by decide)
      have hne : k ≠ '$' ∧ k ≠ '#' ∧ k ≠ '@' ∧ k ≠ '\'' := by
        cases t with
        | op byte => exact hname k hk
        | label name => exact hname k hk
        | directive name =>
            rw [show k = '.' from hk]
            decide
        | register index => exact absurd ht (by simp [Token.isOperand])
        | immediate value => exact absurd ht (by simp [Token.isOperand])
        | reference name => exact absurd ht (by simp [Token.isOperand])
        | string text => exact absurd ht (by simp [Token.isOperand])
      rw [if_neg hne.1, if_neg hne.2.1, if_neg hne.2.2.1, if_neg hne.2.2.2]

/-- **The head of a record that stands at the cursor is read.** -/
theorem head_of_form {t : Token} {ts : List Token} {form : Bytes} (ht : t.isHead = true)
    (hform : Spells t form) (hrest : Written (some t) ts rest) (h : c.Before (form ++ rest))
    (label : Option Bytes) : ∃ d, head label c = .ok (t, d) ∧ d.Before rest := by
  rcases hform.of_isHead ht with ⟨op, rfl, hname, hop⟩ | ⟨name, rfl, hname, rfl⟩
  · obtain ⟨hstart, hcname, hd⟩ := name_of_before hname h (hrest.stops_isNamePart rfl)
    have hdot : c.at? (· = '.') ≠ true := by
      obtain ⟨k, tail, rfl, hk⟩ := hname.opens
      rw [List.append_assoc] at h
      rw [at?_of_before h, Ne, decide_eq_true_eq]
      rintro rfl
      exact absurd hk (by decide)
    refine ⟨c.skipName, ?_, hd⟩
    unfold head
    rw [if_neg hdot, if_pos hstart, hcname, hop]
  · have hmark : c.Before (String.utf8EncodeChar '.' ++ (name ++ rest)) := h
    obtain ⟨hstart, hcname, hd⟩ :=
      name_of_before hname (before_next hmark) (hrest.stops_isNamePart rfl)
    refine ⟨c.next.skipName, ?_, hd⟩
    unfold head
    rw [at?_of_before hmark, if_pos (by decide), if_pos hstart, hcname]

end

/-! ## §4. Records. -/

/-- The label of a record, or that it has none, is found at the cursor. -/
theorem label_of_opened {c : Cursor} {src : Bytes} {label : Option Bytes} {t : Token}
    {ts : List Token} (ht : t.isHead = true) (h : c.Before src)
    (hts : Opened (label.toList.map Token.label ++ t :: ts) src) :
    ∃ d src', c.label = (label, d) ∧ d.Before src' ∧ Opened (t :: ts) src' := by
  cases label with
  | none =>
      refine ⟨c, src, ?_, h, hts⟩
      have hno : (c.at? isNameStart && c.skipName.at? (· = ':')) ≠ true := by
        cases hts with
        | @token _ _ form rest hform hrest =>
            rcases hform.of_isHead ht with ⟨op, rfl, hname, _⟩ | ⟨name, rfl, hname, rfl⟩
            · -- An operation is told from a label by what follows its name.
              obtain ⟨_, _, hd⟩ := name_of_before hname h (hrest.stops_isNamePart rfl)
              rw [(at?_eq_false_iff hd).mpr hrest.stops_colon, Bool.and_false]
              decide
            · have hmark : c.Before (String.utf8EncodeChar '.' ++ (name ++ rest)) := h
              rw [at?_of_before hmark, show isNameStart '.' = false from by decide,
                  Bool.false_and]
              decide
      unfold Cursor.label
      rw [if_neg hno]
  | some name =>
      cases hts with
      | @token _ _ form rest hform hrest =>
          cases hform with
          | label hname =>
              rw [List.append_assoc] at h
              have hstops : Stops isNamePart ([asciiByte ':'] ++ rest) :=
                (stops_asciiByte_cons (by decide)).mpr (by decide)
              obtain ⟨hstart, hcname, hcolon⟩ := name_of_before hname h hstops
              have hmark : c.skipName.Before (String.utf8EncodeChar ':' ++ rest) := hcolon
              obtain ⟨src', hd, hopened⟩ := opened_skipGap (before_next hmark) hrest
              refine ⟨c.skipName.next.skipGap, src', ?_, hd, hopened⟩
              unfold Cursor.label
              rw [hstart, at?_of_before hmark, if_pos (by decide), hcname]

/-- **The operands that follow are read, and no token after them.** -/
theorem operands_of_written {limit : Nat} {c : Cursor} {src : Bytes} {prev : Option Token}
    {ts more : List Token} (h : c.Before src) (hw : Written prev (ts ++ more) src)
    (hlen : ts.length ≤ limit) (hts : ∀ t ∈ ts, t.isOperand = true)
    (hmore : ∀ t ∈ more.head?, t.isOperand = false) :
    ∃ d src' prev', operands limit c = .ok (ts, d) ∧ d.Before src' ∧ Written prev' more src' := by
  induction limit generalizing c src prev ts with
  | zero =>
      -- At the limit nothing more is looked at, so it does not matter what follows.
      have hnil : ts = [] := List.length_eq_zero_iff.mp (Nat.le_zero.mp hlen)
      subst hnil
      exact ⟨c, src, prev, rfl, h, hw⟩
  | succ limit ih =>
      obtain ⟨mid, hmid, hopened⟩ := opened_skipGap h hw
      cases ts with
      | nil =>
          refine ⟨c.skipGap, mid, none, ?_, hmid, hopened.written⟩
          unfold operands
          rw [operand_eq_none hmid hopened hmore]
      | cons t ts =>
          cases hopened with
          | @token _ _ form rest hform hrest =>
              obtain ⟨after, hok, hafter⟩ :=
                operand_of_form (hts t List.mem_cons_self) hform hrest hmid
              obtain ⟨d, src', prev', hops, hd, hwritten⟩ :=
                ih hafter hrest (Nat.le_of_succ_le_succ hlen)
                  (fun u hu => hts u (List.mem_cons_of_mem _ hu))
              refine ⟨d, src', prev', ?_, hd, hwritten⟩
              unfold operands
              rw [hok]
              simp only [hops]

/-- **A record that stands at the cursor is read.** -/
theorem record_of_opened {c : Cursor} {src : Bytes} {r : Record} {more : List Token}
    (hr : r.Shaped) (h : c.Before src) (hts : Opened (r.tokens ++ more) src)
    (hmore : ∀ t ∈ more.head?, t.isOperand = false) :
    ∃ r' d src' prev, c.record = .ok (r', d) ∧ r'.content = r.content ∧ d.Before src'
      ∧ Written prev more src' := by
  obtain ⟨hhead, hlen, hops⟩ := hr
  unfold Record.tokens at hts
  rw [List.append_assoc] at hts
  obtain ⟨mid, rest, hlabel, hmid, hopened⟩ := label_of_opened hhead h hts
  cases hopened with
  | @token _ _ form rest hform hrest =>
      obtain ⟨after, hok, hafter⟩ := head_of_form hhead hform hrest hmid r.label
      obtain ⟨d, src', prev, hoperands, hd, hwritten⟩ :=
        operands_of_written hafter hrest hlen hops hmore
      refine ⟨⟨c.pos, r.label, r.head, r.operands⟩, d, src', prev, ?_, rfl, hd, hwritten⟩
      unfold record
      rw [hlabel]
      simp only [hok]
      rw [show operands maxOperands after = _ from hoperands]

/-- No record starts with an operand. -/
theorem isOperand_head?_tokens {q : Program} (hq : ∀ r ∈ q, r.Shaped) :
    ∀ t ∈ q.tokens.head?, t.isOperand = false := by
  intro t ht
  cases q with
  | nil => exact absurd ht (by simp [Program.tokens])
  | cons r q =>
      have hhead := (hq r List.mem_cons_self).1
      unfold Program.tokens at ht
      rw [List.flatMap_cons] at ht
      unfold Record.tokens at ht
      cases hlabel : r.label with
      | none =>
          rw [hlabel] at ht
          rw [show r.head = t from Option.some.inj ht] at hhead
          cases t <;> first
            | rfl
            | exact absurd hhead (by simp [Token.isHead])
      | some name =>
          rw [hlabel] at ht
          rw [← show Token.label name = t from Option.some.inj ht]
          rfl

theorem records_of_written {q : Program} (hq : ∀ r ∈ q, r.Shaped) {c : Cursor} {src : Bytes}
    {prev : Option Token} (h : c.Before src) (hw : Written prev q.tokens src)
    (before : Array Record) :
    ∃ p, c.records before = .ok (before.toList ++ p) ∧ Program.Same p q := by
  induction q generalizing c src prev before with
  | nil =>
      obtain ⟨src', hsrc', hopened⟩ := opened_skipGap h hw
      have hnil : src' = [] := by
        cases show Opened [] src' from hopened with
        | done => rfl
      subst hnil
      refine ⟨[], ?_, rfl⟩
      rw [records, if_pos (show c.skipGap.rest = [] from hsrc'), List.append_nil]
  | cons r q ih =>
      obtain ⟨mid, hmid, hopened⟩ := opened_skipGap h hw
      -- A record has a head at least, so the text cannot be at its end.
      have hne : c.skipGap.rest ≠ [] := by
        intro hend
        have hnil := hopened.written.eq_nil (hmid.eq_nil hend)
        exact absurd hnil (by simp [Program.tokens, Record.tokens])
      obtain ⟨r', after, rest, prev', hok, hcontent, hafter, hrest⟩ :=
        record_of_opened (hq r List.mem_cons_self) hmid hopened
          (isOperand_head?_tokens fun s hs => hq s (List.mem_cons_of_mem _ hs))
      obtain ⟨p, hp, hsame⟩ :=
        ih (fun s hs => hq s (List.mem_cons_of_mem _ hs)) hafter hrest (before.push r')
      refine ⟨r' :: p, ?_, ?_⟩
      · rw [records, if_neg hne]
        split
        · next e he => exact absurd (hok.symm.trans he) (by simp)
        · next s after' hs =>
          obtain ⟨rfl, rfl⟩ := Prod.mk.inj (Except.ok.inj (hok.symm.trans hs))
          rw [hp, Array.toList_push, List.append_assoc]
          rfl
      · unfold Program.Same at hsame ⊢
        rw [List.map_cons, List.map_cons, hcontent, hsame]

end Cursor

/-! ## §5. Programs. -/

/-- **A text that writes a program is parsed as it, positions aside.** -/
theorem Program.parse_of_writes {q : Program} {src : Bytes} (h : q.Writes src) (file : Bytes) :
    ∃ p, Program.parse file src = .ok p ∧ p.Same q :=
  Cursor.records_of_written h.1 (Cursor.before_start file src) h.2 #[]

/-- **The parser accepts exactly the grammar.**  A source text, well-formed UTF-8 or not, is parsed
as given records, positions aside, if and only if it writes them: gap, token, gap, token, …, gap,
with the tokens of the records in order. -/
theorem parse_eq_ok_iff_writes (file src : Bytes) (q : Program) :
    (∃ p, Program.parse file src = .ok p ∧ p.Same q) ↔ q.Writes src := by
  constructor
  · rintro ⟨p, hp, hsame⟩
    exact hsame.writes (Program.writes_of_parse hp)
  · intro h
    exact Program.parse_of_writes h file

end Quartet
