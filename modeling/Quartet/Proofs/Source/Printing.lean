/-
  Quartet.Proofs.Source.Printing
  ──────────────────────────────
  **PRINTED RECORDS ARE PARSED BACK.**

  The source form that a token prints as is one of its forms, a printed record is its tokens with
  single spaces between them, and a printed program its records with line ends between them.  So a
  printed program writes itself:

    • `Spells.wellFormed`, `Token.spells_text` — a token has a form exactly if it is well-formed,
      and then prints as one,
    • `Program.writes_text` — well-formed records write themselves,
    • `parse_printed` — parsed or well-formed records are parsed back from their printed form.
-/
import Quartet.Proofs.Source.Completeness

namespace Quartet

/-! ## §1. Well-formed records. -/

/-- A token that can be written: its operation is mapped, its name is one, its text has no
quotation mark. -/
def Token.WellFormed : Token → Prop
  | .op byte => ∃ op, Opcode.ofByte? byte = some op
  | .register _ => True
  | .immediate _ => True
  | .label name => IsName name
  | .reference name => IsName name
  | .directive name => IsName name
  | .string text => asciiByte '\'' ∉ text

/-- A record that can be written: an optional label, an operation or a directive, at most three
operands, and each of them well-formed. -/
def Record.WellFormed (r : Record) : Prop := r.Shaped ∧ ∀ t ∈ r.tokens, t.WellFormed

/-- What has a form is well-formed. -/
theorem Spells.wellFormed {t : Token} {form : Bytes} (h : Spells t form) : t.WellFormed := by
  cases h with
  | op hname hop => exact ⟨_, Opcode.ofByte?_toByte _⟩
  | label hname => exact hname
  | directive hname => exact hname
  | reference hname => exact hname
  | register _ _ => trivial
  | immediate _ _ => trivial
  | negative _ _ => trivial
  | string htext => exact htext

theorem Written.wellFormed {prev : Option Token} {ts : List Token} {src : Bytes}
    (h : Written prev ts src) : ∀ t ∈ ts, t.WellFormed := by
  induction h with
  | done _ => exact fun t ht => absurd ht (by simp)
  | token _ _ hform _ ih =>
      intro u hu
      rcases List.mem_cons.mp hu with rfl | hu
      · exact hform.wellFormed
      · exact ih u hu

/-- What is written is well-formed. -/
theorem Program.Writes.wellFormed {p : Program} {src : Bytes} (h : p.Writes src) :
    ∀ r ∈ p, r.WellFormed := by
  intro r hr
  refine ⟨h.1 r hr, ?_⟩
  intro t ht
  exact h.2.wellFormed t (List.mem_flatMap.mpr ⟨r, hr, ht⟩)

/-! ## §2. Printed tokens. -/

theorem utf8_of_ascii {cs : List Char} (h : ∀ c ∈ cs, c.toNat < 0x80) :
    utf8 cs = cs.map asciiByte := by
  induction cs with
  | nil => rfl
  | cons c cs ih =>
      rw [utf8_cons, utf8EncodeChar_ascii (h c List.mem_cons_self),
          ih (fun d hd => h d (List.mem_cons_of_mem _ hd))]
      rfl

/-- The canonical name of an operation is a name, -/
theorem Opcode.isName_mnemonic (op : Opcode) : IsName op.mnemonic := by
  have hall : ((op.names.headD "").toList.all fun c => isNamePart c && c.toNat < 0x80) = true := by
    cases op <;> decide
  have hchars : ∀ c ∈ (op.names.headD "").toList, isNamePart c = true ∧ c.toNat < 0x80 := by
    intro c hc
    have hboth := List.all_eq_true.mp hall c hc
    rwa [Bool.and_eq_true, decide_eq_true_eq] at hboth
  have hfirst : ∃ c, (op.names.headD "").toList.head? = some c ∧ isNameStart c = true := by
    cases op <;> exact ⟨_, rfl, by decide⟩
  obtain ⟨c, hc, hstart⟩ := hfirst
  obtain ⟨cs, hcs⟩ := List.head?_eq_some_iff.mp hc
  rw [isName_iff]
  refine ⟨c, cs, hstart, ?_, ?_⟩
  · intro d hd
    refine (hchars d ?_).1
    rw [hcs]
    exact List.mem_cons_of_mem _ hd
  · rw [← hcs, utf8_of_ascii fun d hd => (hchars d hd).2]
    rfl

/-- and it is looked up as the operation. -/
theorem Opcode.lookup?_mnemonic (op : Opcode) : Opcode.lookup? op.mnemonic = some op := by
  cases op <;> decide +kernel

/-- The digits of a number are a numeral that writes it. -/
theorem isNumeral_toDigits (n : Nat) : IsNumeral (Nat.toDigits 10 n) := by
  refine ⟨Nat.toDigits_ne_nil, ?_⟩
  intro d hd
  have hdigit := Nat.isDigit_of_mem_toDigits (by decide) (by decide) hd
  unfold Char.isDigit at hdigit
  rw [Bool.and_eq_true, decide_eq_true_eq, decide_eq_true_eq] at hdigit
  exact hdigit

theorem decimalNat_eq_utf8 (n : Nat) : decimalNat n = utf8 (Nat.toDigits 10 n) := by
  rw [utf8_of_ascii]
  · rfl
  · intro d hd
    have hle : d.toNat ≤ '9'.toNat := ((isNumeral_toDigits n).2 d hd).2
    have hnine : '9'.toNat = 0x39 := rfl
    omega

/-- **A well-formed token prints as one of its forms.** -/
theorem Token.spells_text {t : Token} (h : t.WellFormed) : Spells t t.text := by
  cases t with
  | op byte =>
      obtain ⟨op, hop⟩ := h
      rw [← Opcode.toByte_of_ofByte? hop]
      show Spells _ (Opcode.nameOfByte op.toByte)
      unfold Opcode.nameOfByte
      rw [Opcode.ofByte?_toByte]
      exact Spells.op op.isName_mnemonic op.lookup?_mnemonic
  | register index =>
      show Spells _ (asciiByte '$' :: decimalNat index.toNat)
      rw [decimalNat_eq_utf8]
      exact Spells.register (isNumeral_toDigits _) Nat.ofDigitChars_ten_toDigits.symm
  | immediate value =>
      show Spells _ (asciiByte '#' :: decimal value.toInt)
      cases hvalue : value.toInt with
      | ofNat n =>
          show Spells _ (asciiByte '#' :: decimalNat n)
          rw [decimalNat_eq_utf8]
          refine Spells.immediate (isNumeral_toDigits n) ?_
          rw [hvalue, numeralValue, Nat.ofDigitChars_ten_toDigits]
          rfl
      | negSucc n =>
          show Spells _ (asciiByte '#' :: asciiByte '-' :: decimalNat (n + 1))
          rw [decimalNat_eq_utf8]
          refine Spells.negative (isNumeral_toDigits (n + 1)) ?_
          rw [hvalue, numeralValue, Nat.ofDigitChars_ten_toDigits]
          rfl
  | label name => exact Spells.label h
  | reference name => exact Spells.reference h
  | directive name => exact Spells.directive h
  | string text => exact Spells.string h

/-! ## §3. Printed records. -/

/-- A single blank byte is a gap. -/
theorem gap_of_blank {k : Char} (hk : k.toNat < 0x80) (hblank : isBlank k = true) :
    Gap [asciiByte k] := by
  have hgap := Gap.blank hblank Gap.nil
  rwa [utf8EncodeChar_ascii hk] at hgap

/-- Tokens with a space before each. -/
def Token.spaced (ts : List Token) : Bytes := ts.flatMap fun t => ascii " " ++ t.text

theorem written_spaced {ts more : List Token} {rest : Bytes} (hts : ∀ t ∈ ts, t.WellFormed)
    (hrest : ∀ prev, Written prev more rest) (prev : Option Token) :
    Written prev (ts ++ more) (Token.spaced ts ++ rest) := by
  induction ts generalizing prev with
  | nil => exact hrest prev
  | cons t ts ih =>
      have ht := hts t List.mem_cons_self
      show Written prev (t :: (ts ++ more)) ((ascii " " ++ t.text ++ Token.spaced ts) ++ rest)
      rw [List.append_assoc, List.append_assoc]
      refine Written.token (gap_of_blank (by decide) (by decide)) ?_ (Token.spells_text ht)
        (ih (fun u hu => hts u (List.mem_cons_of_mem _ hu)) (some t))
      intro hnil
      exact absurd hnil (List.cons_ne_nil _ _)

/-- A printed record is its first token and the others with a space before each. -/
theorem Record.text_eq (r : Record) :
    ∃ t ts, r.tokens = t :: ts ∧ r.text = t.text ++ Token.spaced ts := by
  unfold Record.tokens Record.text
  cases r.label with
  | none => exact ⟨r.head, r.operands, rfl, rfl⟩
  | some name =>
      refine ⟨Token.label name, r.head :: r.operands, rfl, ?_⟩
      show (Token.label name).text ++ ascii " " ++ r.head.text ++ Token.spaced r.operands
        = (Token.label name).text ++ (ascii " " ++ r.head.text ++ Token.spaced r.operands)
      simp only [List.append_assoc]

/-- A printed record after a gap, which is empty only at the start, writes its tokens. -/
theorem Record.WellFormed.written {r : Record} (h : r.WellFormed) {prev : Option Token}
    {gap rest : Bytes} {more : List Token} (hgap : Gap gap) (hstart : gap = [] → prev = none)
    (hrest : ∀ prev, Written prev more rest) :
    Written prev (r.tokens ++ more) (gap ++ (r.text ++ rest)) := by
  obtain ⟨t, ts, htokens, htext⟩ := r.text_eq
  have hwf : ∀ u ∈ t :: ts, u.WellFormed := by
    rw [← htokens]
    exact h.2
  rw [htokens, htext, List.append_assoc]
  refine Written.token hgap ?_ (Token.spells_text (hwf t List.mem_cons_self))
    (written_spaced (fun u hu => hwf u (List.mem_cons_of_mem _ hu)) hrest (some t))
  -- Nothing stands before the first record for it to run together with.
  rintro hnil ⟨p, hp, _⟩
  rw [hstart hnil] at hp
  exact absurd hp (by simp)

/-! ## §4. Printed programs. -/

theorem joinLines_cons (line : Bytes) (lines : List Bytes) :
    joinLines (line :: lines) = line ++ lines.flatMap (asciiByte '\n' :: ·) := by
  induction lines generalizing line with
  | nil => rfl
  | cons next lines ih =>
      show line ++ ([asciiByte '\n'] ++ joinLines (next :: lines)) = _
      rw [ih next]
      rfl

theorem written_lines {p : Program} (h : ∀ r ∈ p, r.WellFormed) (prev : Option Token) :
    Written prev p.tokens ((p.map Record.text).flatMap (asciiByte '\n' :: ·)) := by
  induction p generalizing prev with
  | nil => exact Written.done (LastGap.closed Gap.nil)
  | cons r p ih =>
      refine (h r List.mem_cons_self).written (gap_of_blank (k := '\n') (by decide) (by decide)) ?_
        (ih fun s hs => h s (List.mem_cons_of_mem _ hs))
      intro hnil
      exact absurd hnil (List.cons_ne_nil _ _)

/-- **Well-formed records write themselves when they are printed, one to a line.** -/
theorem Program.writes_text {p : Program} (h : ∀ r ∈ p, r.WellFormed) :
    p.Writes (joinLines (p.map Record.text)) := by
  refine ⟨fun r hr => (h r hr).1, ?_⟩
  cases p with
  | nil => exact Written.done (LastGap.closed Gap.nil)
  | cons r p =>
      rw [List.map_cons, joinLines_cons]
      exact (h r List.mem_cons_self).written Gap.nil (fun _ => rfl)
        (written_lines fun s hs => h s (List.mem_cons_of_mem _ hs))

/-- **Printing undoes parsing.**  Every record that is parsed is well-formed, and the records of a
parsed text, as well as any well-formed ones, are parsed back from their printed form with the same
labels, heads and operands. -/
theorem parse_printed (p : Program) :
    ((∃ file src, Program.parse file src = .ok p) → ∀ r ∈ p, r.WellFormed)
    ∧ ((∃ file src, Program.parse file src = .ok p) ∨ (∀ r ∈ p, r.WellFormed) →
      ∀ file, ∃ p', Program.parse file (joinLines (p.map Record.text)) = .ok p' ∧ p'.Same p) := by
  have hparsed : (∃ file src, Program.parse file src = .ok p) → ∀ r ∈ p, r.WellFormed := by
    rintro ⟨file, src, hparse⟩
    exact (Program.writes_of_parse hparse).wellFormed
  refine ⟨hparsed, ?_⟩
  rintro (hparse | hwf)
  · exact Program.parse_of_writes (Program.writes_text (hparsed hparse))
  · exact Program.parse_of_writes (Program.writes_text hwf)

/-- A text with a name in two scripts, an alias in capitals, leading zeros, tokens that touch, a
comment, a stray byte in a string that goes over two lines, and the extreme numbers. -/
def printingSample : Bytes :=
  utf8 ['é', '_', '1'] ++ ascii ":GTE$007 $255;x\n.asciiz'a;\n" ++ [0xFF]
    ++ ascii "'load $0 #-2147483648"

/-- The records it writes. -/
def printingRecords : Program :=
  [⟨⟨[], 0, 1, 1⟩, some (utf8 ['é', '_', '1']), .op 13, [.register 7, .register 255]⟩,
   ⟨⟨[], 20, 2, 1⟩, none, .directive (ascii "asciiz"), [.string (ascii "a;\n" ++ [0xFF])]⟩,
   ⟨⟨[], 33, 3, 3⟩, none, .op 1, [.register 0, .immediate (-2147483648)]⟩]

theorem parse_printed_sample :
    Program.parse [] printingSample = .ok printingRecords
      ∧ (∀ r ∈ printingRecords, r.WellFormed)
      ∧ ∃ p', Program.parse [] (joinLines (printingRecords.map Record.text)) = .ok p'
        ∧ p'.Same printingRecords := by
  have hoption : (Program.parse [] printingSample).toOption = some printingRecords := by
    decide +kernel
  have hparse : Program.parse [] printingSample = .ok printingRecords := by
    cases h : Program.parse [] printingSample with
    | error e =>
        rw [h] at hoption
        exact absurd hoption (by simp [Except.toOption])
    | ok p =>
        rw [h] at hoption
        exact congrArg Except.ok (Option.some.inj hoption)
  obtain ⟨hwf, hback⟩ := parse_printed printingRecords
  exact ⟨hparse, hwf ⟨[], printingSample, hparse⟩,
    hback (Or.inl ⟨[], printingSample, hparse⟩) []⟩

end Quartet
