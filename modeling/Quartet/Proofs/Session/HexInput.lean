/-
  Quartet.Proofs.Session.HexInput
  ───────────────────────────────
  **HEXADECIMAL INPUT IS NEVER TAKEN FOR INSTRUCTIONS.**

  A line is tried as instructions first, and as hexadecimal bytes only if it is none.  Names of
  operations are spelled with hexadecimal digits too, `add` and `dec`; but these are numbers above
  255, and what is at most 255 and starts with a letter has two digits:

    • `WritesHex`, `HexLine` — the numbers that digits write, and the lines of such numbers,
    • `HexLine.hexBytes_fields` — the bytes of such a line are read from it,
    • `lookup?_eq_none_of_digits`, `HexLine.parse_eq_error` — it is never a program,
    • `HexLine.trim` — and it stays such a line without the white space around it,
    • `hexLine_hexSpaced` — bytes that are written out in two digits each are such a line,
    • `hex_input_loaded` — so these lines load their bytes.
-/
import Quartet.Proofs.Session.Accepted
import Quartet.Proofs.Source.Completeness

namespace Quartet

/-! ## §1. Hexadecimal numbers. -/

/-- The hexadecimal digits in either case, each with its value. -/
def hexTable : List (Char × Nat) :=
  "0123456789abcdef".toList.zipIdx ++ "ABCDEF".toList.zipIdx 10

/-- The number that more digits write, after those that gave `value`. -/
inductive WritesHex : Nat → List Char → Nat → Prop
  | nil {value : Nat} : WritesHex value [] value
  | digit {value n total : Nat} {d : Char} {ds : List Char} (hd : (d, n) ∈ hexTable)
      (hds : WritesHex (value * 16 + n) ds total) : WritesHex value (d :: ds) total

/-- A byte in hexadecimal digits, of which there may be any number. -/
structure HexField (b : UInt8) (ds : List Char) : Prop where
  /-- There is a digit. -/
  ne_nil : ds ≠ []
  /-- The digits write the byte. -/
  writes : WritesHex 0 ds b.toNat

/-- Fields that write bytes, with white space between them and around them. -/
inductive HexLine : Bytes → List Char → Prop
  /-- There is no field. -/
  | blank {gap : List Char} (hgap : ∀ c ∈ gap, isBlank c = true) : HexLine [] gap
  /-- There is a field; it ends with the line or at white space. -/
  | field {b : UInt8} {bs : Bytes} {gap ds rest : List Char} (hgap : ∀ c ∈ gap, isBlank c = true)
      (hds : HexField b ds) (hends : ∀ c ∈ rest.head?, isBlank c = true) (hrest : HexLine bs rest) :
      HexLine (b :: bs) (gap ++ (ds ++ rest))

section Digits

variable {d : Char} {n : Nat}

/-- What holds of the 22 digits can be checked. -/
theorem of_mem_hexTable {p : Char × Nat → Bool} (hp : hexTable.all p = true) (h : (d, n) ∈ hexTable) :
    p (d, n) = true :=
  List.all_eq_true.mp hp _ h

theorem ascii_of_hexTable (h : (d, n) ∈ hexTable) : d.toNat < 0x80 :=
  of_decide_eq_true (of_mem_hexTable (p := fun x => decide (x.1.toNat < 0x80)) (by decide) h)

theorem value_of_hexTable (h : (d, n) ∈ hexTable) : n < 16 :=
  of_decide_eq_true (of_mem_hexTable (p := fun x => decide (x.2 < 16)) (by decide) h)

theorem digit?_of_hexTable (h : (d, n) ∈ hexTable) : Numeral.digit? (asciiByte d) = some n :=
  of_decide_eq_true
    (of_mem_hexTable (p := fun x => decide (Numeral.digit? (asciiByte x.1) = some x.2)) (by decide) h)

theorem isNamePart_of_hexTable (h : (d, n) ∈ hexTable) : isNamePart d = true :=
  of_mem_hexTable (p := fun x => isNamePart x.1) (by decide) h

/-- A digit may start a name if it is a letter. -/
theorem isNameStart_of_hexTable (h : (d, n) ∈ hexTable) : isNameStart d = decide (10 ≤ n) :=
  of_decide_eq_true
    (of_mem_hexTable (p := fun x => decide (isNameStart x.1 = decide (10 ≤ x.2))) (by decide) h)

/-- Neither a point nor a semicolon is a digit, nor are the letters that all short names have. -/
theorem ne_of_hexTable (h : (d, n) ∈ hexTable) :
    d ≠ '.' ∧ d ≠ ';' ∧ (Glyph.ofChar d).lower ≠ 'q' ∧ (Glyph.ofChar d).lower ≠ 't' :=
  of_decide_eq_true
    (of_mem_hexTable (p := fun x => decide (x.1 ≠ '.' ∧ x.1 ≠ ';' ∧
      (Glyph.ofChar x.1).lower ≠ 'q' ∧ (Glyph.ofChar x.1).lower ≠ 't')) (by decide) h)

theorem isBlank_of_hexTable (h : (d, n) ∈ hexTable) : isBlank d = false := by
  cases hblank : isBlank d with
  | false => rfl
  | true =>
      have hpart := isNamePart_of_hexTable h
      rw [isNamePart_of_isBlank hblank] at hpart
      exact absurd hpart (by decide)

end Digits

namespace WritesHex

variable {value total : Nat} {ds : List Char}

/-- More digits make no smaller number. -/
theorem le (h : WritesHex value ds total) : value ≤ total := by
  induction h with
  | nil => exact Nat.le_refl _
  | digit hd hds ih => omega

theorem exists_mem (h : WritesHex value ds total) : ∀ d ∈ ds, ∃ n, (d, n) ∈ hexTable := by
  induction h with
  | nil =>
      intro d hd
      exact absurd hd List.not_mem_nil
  | @digit value n total e ds he hds ih =>
      intro d hd
      rcases List.mem_cons.mp hd with rfl | hd
      · exact ⟨n, he⟩
      · exact ih d hd

theorem isBlank_eq_false (h : WritesHex value ds total) : ∀ d ∈ ds, isBlank d = false := by
  intro d hd
  obtain ⟨n, hn⟩ := h.exists_mem d hd
  exact isBlank_of_hexTable hn

/-- **Digits are read as the number they write**, if it is in range: then all numbers on the way are. -/
theorem continueFrom_eq_ok (h : WritesHex value ds total) {most : Nat} (hmost : total ≤ most) :
    Numeral.continueFrom 16 most false value (utf8 ds) = .ok total := by
  induction h with
  | nil => rfl
  | @digit value n total d ds hd hds ih =>
      have hvalue := value_of_hexTable hd
      have hle := hds.le
      rw [utf8_cons, utf8EncodeChar_ascii (ascii_of_hexTable hd)]
      show Numeral.continueFrom 16 most false value (asciiByte d :: utf8 ds) = _
      simp only [Numeral.continueFrom, digit?_of_hexTable hd, Bool.false_eq_true, false_and, if_false]
      rw [if_neg (by omega), if_neg (by omega)]
      exact ih hmost

end WritesHex

theorem HexField.natural_eq_ok {b : UInt8} {ds : List Char} (h : HexField b ds) :
    Numeral.natural 16 255 (utf8 ds) = .ok b.toNat := by
  have hb : b.toNat ≤ 255 := Nat.le_of_lt_succ b.toNat_lt
  have hne : utf8 ds ≠ [] := fun hnil => h.ne_nil (utf8_eq_nil_iff.mp hnil)
  rw [Numeral.natural, if_neg hne]
  exact h.writes.continueFrom_eq_ok hb

/-! ## §2. Fields. -/

theorem fieldGlyphs_blank_cons {g : Glyph} (hg : g.isBlank = true) (gs : List Glyph) :
    fieldGlyphs (g :: gs) = fieldGlyphs gs := by
  simp [fieldGlyphs, fieldGlyphs.add, hg]

/-- A run that ends at white space, or with the text, is the first field. -/
theorem fieldGlyphs_run_append {run rest : List Glyph} (hne : run ≠ [])
    (hrun : ∀ g ∈ run, g.isBlank = false) (hends : ∀ g ∈ rest.head?, g.isBlank = true) :
    fieldGlyphs (run ++ rest) = run :: fieldGlyphs rest := by
  have hgap : rest.foldr fieldGlyphs.add (true, []) = (true, fieldGlyphs rest) := by
    cases rest with
    | nil => rfl
    | cons g gs =>
        have hg : g.isBlank = true := hends g rfl
        simp [fieldGlyphs, fieldGlyphs.add, hg]
  -- going from the right, the run grows at its front
  have hgrows : (run ++ rest).foldr fieldGlyphs.add (true, []) = (false, run :: fieldGlyphs rest) := by
    induction run with
    | nil => exact absurd rfl hne
    | cons g run ih =>
        have hg : g.isBlank = false := hrun g List.mem_cons_self
        rw [List.cons_append, List.foldr_cons]
        by_cases hlast : run = []
        · rw [hlast, List.nil_append, hgap]
          simp [fieldGlyphs.add, hg]
        · rw [ih hlast fun k hk => hrun k (List.mem_cons_of_mem _ hk)]
          simp [fieldGlyphs.add, hg]
  exact congrArg Prod.snd hgrows

section Fields

variable {gap ds rest : List Char}

theorem fields_utf8 (cs : List Char) :
    fields (utf8 cs) = (fieldGlyphs (cs.map Glyph.ofChar)).map unread := by
  rw [fields, glyphs_utf8]

theorem fields_gap_append (hgap : ∀ c ∈ gap, isBlank c = true) (cs : List Char) :
    fields (utf8 (gap ++ cs)) = fields (utf8 cs) := by
  induction gap with
  | nil => rfl
  | cons c gap ih =>
      have hc : (Glyph.ofChar c).isBlank = true := hgap c List.mem_cons_self
      rw [← ih fun d hd => hgap d (List.mem_cons_of_mem _ hd), fields_utf8, fields_utf8]
      exact congrArg _ (fieldGlyphs_blank_cons hc _)

theorem fields_run_append (hne : ds ≠ []) (hds : ∀ d ∈ ds, isBlank d = false)
    (hends : ∀ c ∈ rest.head?, isBlank c = true) :
    fields (utf8 (ds ++ rest)) = utf8 ds :: fields (utf8 rest) := by
  rw [fields_utf8, fields_utf8, List.map_append, fieldGlyphs_run_append, List.map_cons,
    unread_map_ofChar]
  · simpa using hne
  · intro g hg
    obtain ⟨d, hd, rfl⟩ := List.mem_map.mp hg
    exact hds d hd
  · intro g hg
    rw [List.head?_map] at hg
    obtain ⟨c, hc, rfl⟩ := Option.map_eq_some_iff.mp hg
    exact hends c hc

end Fields

/-- **The bytes of a line are read from it.** -/
theorem HexLine.hexBytes_fields {bs : Bytes} {cs : List Char} (h : HexLine bs cs) :
    hexBytes (fields (utf8 cs)) = .ok bs := by
  induction h with
  | @blank gap hgap =>
      have hfields := fields_gap_append hgap []
      rw [List.append_nil] at hfields
      rw [hfields]
      rfl
  | @field b bs gap ds rest hgap hds hends hrest ih =>
      rw [fields_gap_append hgap, fields_run_append hds.ne_nil hds.writes.isBlank_eq_false hends]
      simp only [hexBytes, hds.natural_eq_ok, ih, UInt8.ofNat_toNat]

/-! ## §3. Such a line is no program. -/

/-- A number below 256 that starts with a letter has at most one more digit. -/
theorem WritesHex.length_le {n total : Nat} {ds : List Char} (h : WritesHex n ds total) (hn : 10 ≤ n)
    (htotal : total < 256) : ds.length ≤ 1 := by
  cases h with
  | nil => exact Nat.zero_le 1
  | digit hd hds =>
      cases hds with
      | nil => exact Nat.le_refl 1
      | digit he hes =>
          -- three digits write at least `a00`
          have hle := hes.le
          omega

/-- **One or two digits are the name of no operation**: the names of two letters have a `q` or a `t`. -/
theorem lookup?_eq_none_of_digits {ds : List Char} (hds : ∀ d ∈ ds, ∃ n, (d, n) ∈ hexTable)
    (hlength : ds.length ≤ 2) : Opcode.lookup? (utf8 ds) = none := by
  have hnames : (Opcode.all.all fun op => op.names.all fun name =>
      decide (2 < name.toList.length ∨ 'q' ∈ name.toList ∨ 't' ∈ name.toList)) = true := by decide
  have hletters : ∀ k ∈ (ds.map Glyph.ofChar).map Glyph.lower, k ≠ 'q' ∧ k ≠ 't' := by
    intro k hk
    obtain ⟨g, hg, rfl⟩ := List.mem_map.mp hk
    obtain ⟨d, hd, rfl⟩ := List.mem_map.mp hg
    obtain ⟨n, hn⟩ := hds d hd
    exact (ne_of_hexTable hn).2.2
  unfold Opcode.lookup?
  rw [List.find?_eq_none]
  intro op hop hany
  obtain ⟨name, hname, heq⟩ := List.any_eq_true.mp hany
  have hlower : name.toList = (ds.map Glyph.ofChar).map Glyph.lower := by
    rw [← glyphs_utf8]
    exact of_decide_eq_true heq
  have hshort := of_decide_eq_true
    (List.all_eq_true.mp (List.all_eq_true.mp hnames op hop) name hname)
  rw [hlower, List.length_map, List.length_map] at hshort
  rcases hshort with hlong | hq | ht
  · omega
  · exact (hletters _ hq).1 rfl
  · exact (hletters _ ht).2 rfl

theorem gap_utf8 {gap : List Char} (hgap : ∀ c ∈ gap, isBlank c = true) : Gap (utf8 gap) := by
  induction gap with
  | nil => exact Gap.nil
  | cons c gap ih =>
      exact Gap.blank (hgap c List.mem_cons_self) (ih fun d hd => hgap d (List.mem_cons_of_mem _ hd))

theorem stops_of_ends {p : Char → Bool} (hp : ∀ c, isBlank c = true → p c = false) {rest : List Char}
    (hends : ∀ c ∈ rest.head?, isBlank c = true) : Stops p (utf8 rest) := by
  cases rest with
  | nil => exact stops_nil p
  | cons c rest => exact stops_utf8EncodeChar_append.mpr (hp c (hends c rfl))

/-- The first digit of a field, and the others. -/
theorem HexField.exists_cons {b : UInt8} {ds : List Char} (h : HexField b ds) :
    ∃ d n more, ds = d :: more ∧ (d, n) ∈ hexTable ∧ WritesHex n more b.toNat := by
  obtain ⟨hne, hwrites⟩ := h
  generalize b.toNat = total at hwrites ⊢
  cases hwrites with
  | nil => exact absurd rfl hne
  | @digit _ n _ d more hd hmore =>
      rw [Nat.zero_mul, Nat.zero_add] at hmore
      exact ⟨d, n, more, rfl, hd, hmore⟩

namespace Cursor

variable {c : Cursor} {b : UInt8} {ds rest : List Char}

theorem record_of_head_error {e : SyntaxError} (hlabel : c.label = (none, c))
    (hhead : head none c = .error e) : c.record = .error e := by
  unfold record
  rw [hlabel, hhead]

/-- What starts with a decimal digit is no record. -/
theorem record_of_decimal {d : Char} {src : Bytes} (h : c.Before (String.utf8EncodeChar d ++ src))
    (hname : isNameStart d = false) (hdot : d ≠ '.') : ∃ e, c.record = .error e := by
  have hstart : c.at? isNameStart = false := by rw [at?_of_before h, hname]
  have hpoint : c.at? (· = '.') ≠ true := by
    rw [at?_of_before h, Ne, decide_eq_true_eq]
    exact hdot
  have hlabel : c.label = (none, c) := by
    unfold label
    rw [hstart, Bool.false_and]
    rfl
  have hhead : head none c = .error (c.problem .noRecord) := by
    unfold head
    rw [if_neg hpoint, hstart]
    rfl
  exact ⟨_, record_of_head_error hlabel hhead⟩

/-- Nor is a name of no operation that no colon follows. -/
theorem record_of_unknown {name src : Bytes} (hname : IsName name) (h : c.Before (name ++ src))
    (hpart : Stops isNamePart src) (hcolon : Stops (· = ':') src)
    (hop : Opcode.lookup? name = none) : ∃ e, c.record = .error e := by
  obtain ⟨hstart, hcname, hafter⟩ := name_of_before hname h hpart
  have hpoint : c.at? (· = '.') ≠ true := by
    obtain ⟨k, tail, rfl, hk⟩ := hname.opens
    rw [List.append_assoc] at h
    rw [at?_of_before h, Ne, decide_eq_true_eq]
    rintro rfl
    exact absurd hk (by decide)
  have hlabel : c.label = (none, c) := by
    unfold label
    rw [(at?_eq_false_iff hafter).mpr hcolon, Bool.and_false]
    rfl
  have hhead : head none c = .error (c.problem (.unknownMnemonic name)) := by
    unfold head
    rw [if_neg hpoint, if_pos hstart, hcname, hop]
  exact ⟨_, record_of_head_error hlabel hhead⟩

/-- **A field is no record**: it starts with a decimal digit, or it is a name of no operation. -/
theorem record_of_hexField (hds : HexField b ds) (hends : ∀ k ∈ rest.head?, isBlank k = true)
    (h : c.Before (utf8 ds ++ utf8 rest)) : ∃ e, c.record = .error e := by
  have hall := hds.writes.exists_mem
  obtain ⟨d, n, more, rfl, hd, hmore⟩ := hds.exists_cons
  by_cases hn : 10 ≤ n
  · -- a letter: the field would be the name of an operation, but these are longer
    have hname : IsName (utf8 (d :: more)) := by
      refine isName_iff.mpr ⟨d, more, ?_, ?_, rfl⟩
      · rw [isNameStart_of_hexTable hd, decide_eq_true hn]
      · intro e he
        obtain ⟨k, hk⟩ := hall e (List.mem_cons_of_mem _ he)
        exact isNamePart_of_hexTable hk
    have hlength : (d :: more).length ≤ 2 := Nat.succ_le_succ (hmore.length_le hn b.toNat_lt)
    refine record_of_unknown hname h (stops_of_ends (fun _ => isNamePart_of_isBlank) hends) ?_
      (lookup?_eq_none_of_digits hall hlength)
    refine stops_of_ends ?_ hends
    intro k hk
    rw [decide_eq_false_iff_not]
    rintro rfl
    exact absurd hk (by decide)
  · -- a decimal digit, which no record starts with
    rw [utf8_cons, List.append_assoc] at h
    refine record_of_decimal h ?_ (ne_of_hexTable hd).1
    rw [isNameStart_of_hexTable hd, decide_eq_false hn]

/-- Where a record cannot be read, no program can. -/
theorem records_of_record_error {e : SyntaxError} (hne : c.skipGap.rest ≠ [])
    (h : c.skipGap.record = .error e) (before : Array Record) : c.records before = .error e := by
  rw [records, if_neg hne]
  split
  · next e' he => exact congrArg Except.error (Except.error.inj (he.symm.trans h))
  · next r after hok => exact absurd (h.symm.trans hok) (by simp)

end Cursor

/-- **A line of hexadecimal bytes is no program.** -/
theorem HexLine.parse_eq_error {b : UInt8} {bs : Bytes} {cs : List Char} (h : HexLine (b :: bs) cs)
    (file : Bytes) : ∃ e, Program.parse file (utf8 cs) = .error e := by
  cases h with
  | @field _ _ gap ds rest hgap hds hends hrest =>
      let c := Cursor.start file (utf8 (gap ++ (ds ++ rest)))
      -- the white space in front is passed, up to the first digit
      obtain ⟨pos, hpos⟩ := Cursor.skipGap_go_gap (gap_utf8 hgap) c.pos (utf8 ds ++ utf8 rest)
      have hskip : c.skipGap = Cursor.skipGap.go false pos (glyphs (utf8 ds ++ utf8 rest)) := by
        rw [← hpos, ← utf8_append, ← utf8_append]
        rfl
      obtain ⟨d, n, more, hcons, hd, -⟩ := hds.exists_cons
      have hstay : c.skipGap = ⟨pos, glyphs (utf8 ds ++ utf8 rest)⟩ := by
        have hsemi : (Glyph.ofChar d).char ≠ ';' := (ne_of_hexTable hd).2.1
        have hblank : (Glyph.ofChar d).isBlank ≠ true := by
          rw [show (Glyph.ofChar d).isBlank = false from isBlank_of_hexTable hd]
          decide
        rw [hskip, glyphs_utf8_append, hcons, List.map_cons, List.cons_append, Cursor.skipGap.go,
          if_neg (by decide), if_neg hsemi, if_neg hblank]
      have hbefore : c.skipGap.Before (utf8 ds ++ utf8 rest) := by
        rw [hstay]
        rfl
      have hne : c.skipGap.rest ≠ [] := by
        rw [hstay, glyphs_utf8_append, hcons]
        simp
      obtain ⟨e, he⟩ := Cursor.record_of_hexField hds hends hbefore
      exact ⟨e, Cursor.records_of_record_error hne he #[]⟩

/-! ## §4. White space around a line. -/

theorem trim_utf8 (cs : List Char) :
    trim (utf8 cs) = utf8 ((cs.dropWhile isBlank).reverse.dropWhile isBlank).reverse := by
  have hclass : Glyph.isBlank ∘ Glyph.ofChar = isBlank := rfl
  rw [trim, glyphs_utf8, trimGlyphs, List.dropWhile_map, hclass, ← List.map_reverse,
    List.dropWhile_map, hclass, ← List.map_reverse, unread_map_ofChar]

namespace HexLine

variable {bs : Bytes} {c : Char} {cs : List Char}

theorem cons_blank (h : HexLine bs cs) (hc : isBlank c = true) : HexLine bs (c :: cs) := by
  cases h with
  | blank hgap => exact .blank (List.forall_mem_cons.mpr ⟨hc, hgap⟩)
  | field hgap hds hends hrest =>
      rw [← List.cons_append]
      exact .field (List.forall_mem_cons.mpr ⟨hc, hgap⟩) hds hends hrest

/-- White space in front may be left out. -/
theorem of_cons_blank (h : HexLine bs (c :: cs)) (hc : isBlank c = true) : HexLine bs cs := by
  generalize hline : c :: cs = line at h
  cases h with
  | blank hgap =>
      rw [← hline] at hgap
      exact .blank fun d hd => hgap d (List.mem_cons_of_mem _ hd)
  | @field b bs gap ds rest hgap hds hends hrest =>
      cases gap with
      | nil =>
          -- a field does not start with white space
          obtain ⟨d, n, more, rfl, hd, -⟩ := hds.exists_cons
          rw [(List.cons.inj hline).1, isBlank_of_hexTable hd] at hc
          exact absurd hc (by decide)
      | cons e gap =>
          rw [(List.cons.inj hline).2]
          exact .field (fun d hd => hgap d (List.mem_cons_of_mem _ hd)) hds hends hrest

/-- So may white space at the end. -/
theorem of_append_blank (h : HexLine bs (cs ++ [c])) (hc : isBlank c = true) : HexLine bs cs := by
  generalize hline : cs ++ [c] = line at h
  induction h generalizing cs with
  | blank hgap =>
      rw [← hline] at hgap
      exact .blank fun d hd => hgap d (List.mem_append_left _ hd)
  | @field b bs gap ds rest hgap hds hends hrest ih =>
      rcases List.eq_nil_or_concat rest with hnil | ⟨front, last, hlast⟩
      · -- a field does not end with white space
        rw [hnil, List.append_nil] at hline
        rcases List.eq_nil_or_concat ds with hempty | ⟨digits, d, hd⟩
        · exact absurd hempty hds.ne_nil
        · rw [List.concat_eq_append] at hd
          rw [hd, ← List.append_assoc] at hline
          obtain ⟨-, hsame⟩ := List.append_inj' hline rfl
          have hblank : isBlank d = false :=
            hds.writes.isBlank_eq_false d (by rw [hd]; exact List.mem_append_right _ List.mem_cons_self)
          rw [(List.cons.inj hsame).1, hblank] at hc
          exact absurd hc (by decide)
      · -- the white space is that at the end of the other fields
        rw [List.concat_eq_append] at hlast
        rw [hlast, ← List.append_assoc, ← List.append_assoc, List.append_assoc gap] at hline
        obtain ⟨hfront, hsame⟩ := List.append_inj' hline rfl
        have hrest' : HexLine bs front := ih (by rw [hlast, hsame])
        rw [hfront]
        refine .field hgap hds ?_ hrest'
        intro k hk
        refine hends k ?_
        rw [hlast, List.head?_append, hk]
        rfl

theorem dropWhile (h : HexLine bs cs) : HexLine bs (cs.dropWhile isBlank) := by
  induction cs with
  | nil => exact h
  | cons c cs ih =>
      rw [List.dropWhile_cons]
      by_cases hc : isBlank c = true
      · rw [if_pos hc]
        exact ih (h.of_cons_blank hc)
      · rw [if_neg hc]
        exact h

theorem dropWhile_reverse (h : HexLine bs cs.reverse) : HexLine bs (cs.dropWhile isBlank).reverse := by
  induction cs with
  | nil => exact h
  | cons c cs ih =>
      rw [List.dropWhile_cons]
      by_cases hc : isBlank c = true
      · rw [if_pos hc]
        rw [List.reverse_cons] at h
        exact ih (h.of_append_blank hc)
      · rw [if_neg hc]
        exact h

/-- **Without the white space around it, a line writes the same bytes.** -/
theorem trim (h : HexLine bs cs) : ∃ ds, Quartet.trim (utf8 cs) = utf8 ds ∧ HexLine bs ds := by
  refine ⟨_, trim_utf8 cs, dropWhile_reverse ?_⟩
  rw [List.reverse_reverse]
  exact h.dropWhile

theorem ne_nil {b : UInt8} (h : HexLine (b :: bs) cs) : cs ≠ [] := by
  cases h with
  | field hgap hds hends hrest =>
      intro hnil
      exact hds.ne_nil (List.append_eq_nil_iff.mp (List.append_eq_nil_iff.mp hnil).2).1

/-- A line does not start with a point, which is neither white space nor a digit. -/
theorem head?_ne_point (h : HexLine bs cs) : cs.head? ≠ some '.' := by
  intro hpoint
  cases h with
  | blank hgap => exact absurd (hgap '.' (List.mem_of_head? hpoint)) (by decide)
  | @field b bs gap ds rest hgap hds hends hrest =>
      cases gap with
      | nil =>
          obtain ⟨d, n, more, rfl, hd, -⟩ := hds.exists_cons
          exact (ne_of_hexTable hd).1 (Option.some.inj hpoint)
      | cons e gap =>
          have he := hgap e List.mem_cons_self
          rw [Option.some.inj hpoint] at he
          exact absurd he (by decide)

theorem head?_utf8_ne_point (h : HexLine bs cs) : (utf8 cs).head? ≠ some (asciiByte '.') := by
  intro hpoint
  cases cs with
  | nil => exact absurd hpoint (by simp)
  | cons d ds =>
      have hmem : asciiByte '.' ∈ (Glyph.ofChar d).bytes := by
        cases henc : String.utf8EncodeChar d with
        | nil => exact absurd henc String.utf8EncodeChar_ne_nil
        | cons a tail =>
            rw [utf8_cons, henc] at hpoint
            rw [← Option.some.inj hpoint]
            show a ∈ String.utf8EncodeChar d
            rw [henc]
            exact List.mem_cons_self
      have hd : d = '.' := ((Glyph.Read.char d).asciiByte_mem_iff (by decide)).mp hmem
      exact h.head?_ne_point (congrArg some hd)

end HexLine

/-! ## §5. Such a line is input. -/

/-- A line that does not start with a point is no command. -/
theorem Request.ofLine_of_head? {line : Bytes} (h : line.head? ≠ some (asciiByte '.')) :
    Request.ofLine line = .input line := by
  have hword : ∀ name, (ascii name).head? = some (asciiByte '.') → firstWord line ≠ ascii name := by
    intro name hpoint heq
    rw [← heq, firstWord, List.head?_takeWhile] at hpoint
    exact h (Option.eq_some_of_filter_eq_some hpoint)
  simp only [ofLine, hword ".quit" (by decide), hword ".help" (by decide), hword ".program" (by decide),
    hword ".registers" (by decide), hword ".heap" (by decide), hword ".ro" (by decide),
    hword ".history" (by decide), hword ".reset" (by decide), hword ".run" (by decide),
    hword ".load_file" (by decide), if_false]

theorem HexLine.request? {b : UInt8} {bs : Bytes} {cs : List Char} (h : HexLine (b :: bs) cs) :
    ∃ ds, Session.request? (utf8 cs) = some (.input (utf8 ds)) ∧ HexLine (b :: bs) ds := by
  obtain ⟨ds, htrim, hds⟩ := h.trim
  refine ⟨ds, ?_, hds⟩
  rw [Session.request?, htrim, if_neg (fun hnil => hds.ne_nil (utf8_eq_nil_iff.mp hnil)),
    Request.ofLine_of_head? hds.head?_utf8_ne_point]

/-- **The bytes of a line are loaded**, and one step is taken and reported. -/
theorem HexLine.reply_eq {b : UInt8} {bs : Bytes} {cs : List Char} (h : HexLine (b :: bs) cs)
    (s : Session) (host : Host) :
    (s.reply host (utf8 cs)).session =
        { s.noting (utf8 cs) with machine := (s.machine.load (b :: bs)).step.2 } ∧
      (s.reply host (utf8 cs)).output =
        Session.report (s.machine.load (b :: bs)).step.1 (s.machine.load (b :: bs)).step.2 ∧
      (s.reply host (utf8 cs)).quit = false := by
  obtain ⟨ds, hrequest, hds⟩ := h.request?
  obtain ⟨e, hparse⟩ := hds.parse_eq_error (ascii "input")
  rw [Session.reply_of_some hrequest]
  exact Session.perform_of_accepts _ (.hex hparse hds.hexBytes_fields)

/-! ## §6. Bytes in two digits each. -/

/-- The two digits of a byte. -/
def hexChars (b : UInt8) : List Char := [Nat.digitChar (b.toNat / 16), Nat.digitChar (b.toNat % 16)]

theorem digitChar_mem_hexTable {n : Nat} (hn : n < 16) : (Nat.digitChar n, n) ∈ hexTable := by
  have hall : ∀ k < 16, (Nat.digitChar k, k) ∈ hexTable := by decide
  exact hall n hn

theorem hexField_hexChars (b : UInt8) : HexField b (hexChars b) ∧ utf8 (hexChars b) = hexByte b := by
  have hb : b.toNat < 256 := b.toNat_lt
  have hhigh := digitChar_mem_hexTable (show b.toNat / 16 < 16 by omega)
  have hlow := digitChar_mem_hexTable (show b.toNat % 16 < 16 by omega)
  have hmod : b.toNat / 16 % 16 = b.toNat / 16 := by omega
  refine ⟨⟨by simp [hexChars], .digit hhigh (.digit hlow ?_)⟩, ?_⟩
  · rw [show (0 * 16 + b.toNat / 16) * 16 + b.toNat % 16 = b.toNat by omega]
    exact .nil
  · simp only [hexChars, utf8_cons, utf8_nil, utf8EncodeChar_ascii (ascii_of_hexTable hhigh),
      utf8EncodeChar_ascii (ascii_of_hexTable hlow), hexByte, hexDigits, hexDigit, hmod]
    rfl

/-- **Bytes in two digits each, divided by spaces, are a line that writes them.** -/
theorem hexLine_hexSpaced (bs : Bytes) : ∃ cs, hexSpaced bs = utf8 cs ∧ HexLine bs cs := by
  induction bs with
  | nil => exact ⟨[], rfl, .blank (by simp)⟩
  | cons b bs ih =>
      obtain ⟨hfield, hbyte⟩ := hexField_hexChars b
      cases bs with
      -- no space stands behind the last byte
      | nil =>
          refine ⟨[] ++ (hexChars b ++ []), ?_, .field (by simp) hfield (by simp) (.blank (by simp))⟩
          rw [List.nil_append, List.append_nil, hbyte]
          simp [hexSpaced]
      | cons b' bs =>
          obtain ⟨cs, hcs, hline⟩ := ih
          have hspace : HexLine (b' :: bs) (' ' :: cs) := hline.cons_blank (by decide)
          refine ⟨[] ++ (hexChars b ++ ' ' :: cs), ?_, .field (by simp) hfield (by simp; decide) hspace⟩
          rw [List.nil_append, utf8_append, hbyte, utf8_cons, ← hcs]
          rfl

/-- **Hexadecimal input is never taken for instructions.**  A line of one or more fields, each a
number up to 255 in hexadecimal digits of any number and either case, is refused as a program.  So the
bytes of its fields, in order, are added to the program, one step is taken and it is reported.  In
particular, bytes that are written out in two digits each are loaded as they are. -/
theorem hex_input_loaded :
    (∀ (b : UInt8) (bs : Bytes) (cs : List Char), HexLine (b :: bs) cs →
      (∀ file, ∃ e, Program.parse file (utf8 cs) = .error e) ∧
      ∀ (s : Session) (host : Host),
        (s.reply host (utf8 cs)).session =
          { s.noting (utf8 cs) with machine := (s.machine.load (b :: bs)).step.2 } ∧
        (s.reply host (utf8 cs)).output =
          Session.report (s.machine.load (b :: bs)).step.1 (s.machine.load (b :: bs)).step.2 ∧
        (s.reply host (utf8 cs)).quit = false ∧
        (s.reply host (utf8 cs)).session.machine.code.toList =
          s.machine.code.toList ++ b :: bs) ∧
    ∀ (b : UInt8) (bs : Bytes) (s : Session) (host : Host),
      (s.reply host (hexSpaced (b :: bs))).session.machine =
        (s.machine.load (b :: bs)).step.2 ∧
      (s.reply host (hexSpaced (b :: bs))).session.machine.code.toList =
        s.machine.code.toList ++ b :: bs := by
  refine ⟨?_, ?_⟩
  · intro b bs cs h
    refine ⟨h.parse_eq_error, ?_⟩
    intro s host
    obtain ⟨hsession, houtput, hquit⟩ := h.reply_eq s host
    refine ⟨hsession, houtput, hquit, ?_⟩
    rw [hsession]
    exact s.machine.code_step_load (b :: bs)
  · intro b bs s host
    obtain ⟨cs, hcs, h⟩ := hexLine_hexSpaced (b :: bs)
    obtain ⟨hsession, -, -⟩ := h.reply_eq s host
    rw [hcs, hsession]
    exact ⟨rfl, s.machine.code_step_load (b :: bs)⟩

/-- Letters, a tab, a leading zero and white space at the end. -/
theorem hexLine_sample : HexLine [0xad, 0xde] ['a', 'D', '\t', '0', 'd', 'E', ' '] := by
  have hfirst : WritesHex 0 ['a', 'D'] 0xad :=
    .digit (n := 10) (by decide) (.digit (n := 13) (by decide) .nil)
  have hsecond : WritesHex 0 ['0', 'd', 'E'] 0xde :=
    .digit (n := 0) (by decide) (.digit (n := 13) (by decide) (.digit (n := 14) (by decide) .nil))
  have hrest : HexLine [0xde] (['\t'] ++ (['0', 'd', 'E'] ++ [' '])) :=
    .field (by simp; decide) ⟨by simp, hsecond⟩ (by simp; decide) (.blank (by simp; decide))
  have hline : HexLine [0xad, 0xde] ([] ++ (['a', 'D'] ++ (['\t'] ++ (['0', 'd', 'E'] ++ [' '])))) :=
    .field (by simp) ⟨by simp, hfirst⟩ (by simp; decide) hrest
  exact hline

theorem hex_input_loaded_sample :
    HexLine [0xad, 0xde] ['a', 'D', '\t', '0', 'd', 'E', ' '] ∧
    (∃ e, Program.parse [] (ascii "aD\t0dE ") = .error e) ∧
    (({} : Session).reply ⟨fun name => .error ⟨.opening, name, .missing⟩, fun _ _ => []⟩
      (ascii "aD\t0dE ")).session.machine.code.toList = [0xad, 0xde] := by
  have hascii : utf8 ['a', 'D', '\t', '0', 'd', 'E', ' '] = ascii "aD\t0dE " := by decide
  obtain ⟨hparse, hreply⟩ := hex_input_loaded.1 _ _ _ hexLine_sample
  rw [hascii] at hparse hreply
  exact ⟨hexLine_sample, hparse [], (hreply _ _).2.2.2⟩

end Quartet
