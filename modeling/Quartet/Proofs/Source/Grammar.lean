/-
  Quartet.Proofs.Source.Grammar
  ─────────────────────────────
  **THE GRAMMAR OF SOURCE TEXTS.**

  A source text is a row of tokens with gaps between them.  This module says so on byte strings,
  without reading any:

    • `Gap`, `LastGap` — white space and comments,
    • `Spells` — the source forms of a token, of which it may have several,
    • `Written` — a text that writes a list of tokens,
    • `Program.Writes` — a text that writes the tokens of a program's records.

  The rest is about the edges of tokens: which characters open one (`Spells.opens`), and which
  cannot follow one (`Written.stops`).
-/
import Quartet.Proofs.Text.Utf8
import Quartet.Source.Parser

namespace Quartet

/-! ## §1. Names, numerals and gaps. -/

/-- A name: a letter or `_`, then letters, digits and `_`. -/
def IsName (name : Bytes) : Prop :=
  ∃ c cs, (c = '_' ∨ isLetter c = true)
    ∧ (∀ d ∈ cs, d = '_' ∨ isLetter d = true ∨ isDigit d = true) ∧ name = utf8 (c :: cs)

/-- Decimal digits, one at least. -/
def IsNumeral (ds : List Char) : Prop := ds ≠ [] ∧ ∀ d ∈ ds, '0' ≤ d ∧ d ≤ '9'

/-- The number that decimal digits write. -/
def numeralValue (ds : List Char) : Nat := Nat.ofDigitChars 10 ds 0

/-- White space and comments, each comment with the newline that ends it. -/
inductive Gap : Bytes → Prop
  | nil : Gap []
  | blank {c : Char} {rest : Bytes} (hc : isBlank c = true) (hrest : Gap rest) :
      Gap (String.utf8EncodeChar c ++ rest)
  | comment {body rest : Bytes} (hbody : asciiByte '\n' ∉ body) (hrest : Gap rest) :
      Gap (asciiByte ';' :: (body ++ asciiByte '\n' :: rest))

/-- A gap at the end of a text, which may also end a comment. -/
inductive LastGap : Bytes → Prop
  | closed {gap : Bytes} (hgap : Gap gap) : LastGap gap
  | comment {gap body : Bytes} (hgap : Gap gap) (hbody : asciiByte '\n' ∉ body) :
      LastGap (gap ++ asciiByte ';' :: body)

theorem Gap.append {g g' : Bytes} (h : Gap g) (h' : Gap g') : Gap (g ++ g') := by
  induction h with
  | nil => exact h'
  | blank hc _ ih =>
      rw [List.append_assoc]
      exact Gap.blank hc ih
  | comment hbody _ ih =>
      rw [List.cons_append, List.append_assoc, List.cons_append]
      exact Gap.comment hbody ih

theorem LastGap.append_left {g g' : Bytes} (h : Gap g) (h' : LastGap g') : LastGap (g ++ g') := by
  cases h' with
  | closed hgap => exact LastGap.closed (h.append hgap)
  | comment hgap hbody =>
      rw [← List.append_assoc]
      exact LastGap.comment (h.append hgap) hbody

/-! ## §2. Tokens. -/

/-- The source forms of a token.  A number is written with any number of leading zeros, an
operation by any name that is looked up as it. -/
inductive Spells : Token → Bytes → Prop
  | op {name : Bytes} {op : Opcode} (hname : IsName name) (hop : Opcode.lookup? name = some op) :
      Spells (.op op.toByte) name
  | label {name : Bytes} (hname : IsName name) : Spells (.label name) (name ++ [asciiByte ':'])
  | directive {name : Bytes} (hname : IsName name) :
      Spells (.directive name) (asciiByte '.' :: name)
  | reference {name : Bytes} (hname : IsName name) :
      Spells (.reference name) (asciiByte '@' :: name)
  | register {index : UInt8} {ds : List Char} (hds : IsNumeral ds)
      (hindex : index.toNat = numeralValue ds) :
      Spells (.register index) (asciiByte '$' :: utf8 ds)
  | immediate {value : Int32} {ds : List Char} (hds : IsNumeral ds)
      (hvalue : value.toInt = numeralValue ds) :
      Spells (.immediate value) (asciiByte '#' :: utf8 ds)
  | negative {value : Int32} {ds : List Char} (hds : IsNumeral ds)
      (hvalue : value.toInt = -numeralValue ds) :
      Spells (.immediate value) (asciiByte '#' :: asciiByte '-' :: utf8 ds)
  | string {text : Bytes} (htext : asciiByte '\'' ∉ text) :
      Spells (.string text) (asciiByte '\'' :: (text ++ [asciiByte '\'']))

namespace Token

/-- Whether the forms of a token end in a name. -/
def endsInName : Token → Bool
  | .op _ | .directive _ | .reference _ => true
  | _ => false

/-- Whether the forms of a token start with a name. -/
def startsWithName : Token → Bool
  | .op _ | .label _ => true
  | _ => false

/-- Whether a token may head a record. -/
def isHead : Token → Bool
  | .op _ | .directive _ => true
  | _ => false

/-- Whether a token may be an operand. -/
def isOperand : Token → Bool
  | .register _ | .immediate _ | .reference _ | .string _ => true
  | _ => false

/-- Whether two tokens would run together without a gap between them; at the start of a text there
is no token before. -/
def Clash (prev : Option Token) (t : Token) : Prop :=
  ∃ p, prev = some p ∧ p.endsInName = true ∧ t.startsWithName = true

end Token

/-- The two forms of a head. -/
theorem Spells.of_isHead {t : Token} {form : Bytes} (h : Spells t form) (ht : t.isHead = true) :
    (∃ op, t = .op (Opcode.toByte op) ∧ IsName form ∧ Opcode.lookup? form = some op)
      ∨ ∃ name, t = .directive name ∧ IsName name ∧ form = asciiByte '.' :: name := by
  cases h with
  | @op _ op hname hop => exact Or.inl ⟨op, rfl, hname, hop⟩
  | @directive name hname => exact Or.inr ⟨name, rfl, hname, rfl⟩
  | label _ => exact absurd ht (by simp [Token.isHead])
  | register _ _ => exact absurd ht (by simp [Token.isHead])
  | immediate _ _ => exact absurd ht (by simp [Token.isHead])
  | negative _ _ => exact absurd ht (by simp [Token.isHead])
  | reference _ => exact absurd ht (by simp [Token.isHead])
  | string _ => exact absurd ht (by simp [Token.isHead])

/-! ## §3. Texts. -/

/-- The texts that write a list of tokens after the token `prev`: gap, token, gap, token, …, gap.  A
gap is not empty where the tokens on both sides would run together. -/
inductive Written : Option Token → List Token → Bytes → Prop
  | done {prev : Option Token} {gap : Bytes} (hgap : LastGap gap) : Written prev [] gap
  | token {prev : Option Token} {t : Token} {ts : List Token} {gap form rest : Bytes}
      (hgap : Gap gap) (hclash : gap = [] → ¬Token.Clash prev t) (hform : Spells t form)
      (hrest : Written (some t) ts rest) : Written prev (t :: ts) (gap ++ (form ++ rest))

/-- A gap that is not empty divides whatever stands on its left from what stands on its right. -/
theorem Written.after_gap {ts : List Token} {gap src : Bytes} (h : Written none ts src)
    (hgap : Gap gap) (hne : gap ≠ []) (prev : Option Token) : Written prev ts (gap ++ src) := by
  cases h with
  | done hlast => exact Written.done (hlast.append_left hgap)
  | token hgap' _ hform hrest =>
      rw [← List.append_assoc]
      refine Written.token (hgap.append hgap') ?_ hform hrest
      intro hnil
      exact absurd (List.append_eq_nil_iff.mp hnil).1 hne

namespace Record

/-- The tokens of a record in source order. -/
def tokens (r : Record) : List Token := r.label.toList.map Token.label ++ r.head :: r.operands

/-- A record has an operation or directive for a head and at most three operands. -/
def Shaped (r : Record) : Prop :=
  r.head.isHead = true ∧ r.operands.length ≤ 3 ∧ ∀ t ∈ r.operands, t.isOperand = true

/-- What a record says, its position aside. -/
def content (r : Record) : Option Bytes × Token × List Token := (r.label, r.head, r.operands)

end Record

namespace Program

/-- The tokens of a program in source order. -/
def tokens (p : Program) : List Token := p.flatMap Record.tokens

/-- The texts that write a program. -/
def Writes (p : Program) (src : Bytes) : Prop :=
  (∀ r ∈ p, r.Shaped) ∧ Written none p.tokens src

/-- Two programs that differ in positions at most. -/
def Same (p q : Program) : Prop := p.map Record.content = q.map Record.content

end Program

theorem Record.eq_of_content {r s : Record} (h : r.content = s.content) :
    r.label = s.label ∧ r.head = s.head ∧ r.operands = s.operands := by
  obtain ⟨hlabel, hrest⟩ := Prod.mk.inj h
  exact ⟨hlabel, Prod.mk.inj hrest⟩

/-- The texts of a program depend on what its records say only. -/
theorem Program.Same.tokens_eq {p q : Program} (h : p.Same q) : p.tokens = q.tokens := by
  have htokens : ∀ p : Program, p.tokens
      = (p.map Record.content).flatMap fun x => x.1.toList.map Token.label ++ x.2.1 :: x.2.2 := by
    intro p
    rw [List.flatMap_map]
    rfl
  rw [htokens p, htokens q, show p.map Record.content = q.map Record.content from h]

theorem Program.Same.shaped {p q : Program} (h : p.Same q) (hp : ∀ r ∈ p, r.Shaped) :
    ∀ r ∈ q, r.Shaped := by
  intro s hs
  have hmem : s.content ∈ p.map Record.content := by
    rw [show p.map Record.content = q.map Record.content from h]
    exact List.mem_map_of_mem hs
  obtain ⟨r, hr, hcontent⟩ := List.mem_map.mp hmem
  obtain ⟨_, hhead, hoperands⟩ := Record.eq_of_content hcontent
  have hshaped := hp r hr
  unfold Record.Shaped at hshaped ⊢
  rwa [hhead, hoperands] at hshaped

theorem Program.Same.writes {p q : Program} (h : p.Same q) {src : Bytes} (hp : p.Writes src) :
    q.Writes src := by
  refine ⟨h.shaped hp.1, ?_⟩
  rw [← h.tokens_eq]
  exact hp.2

/-! ## §4. Characters. -/

/-- The code points of white space, one by one. -/
private theorem toNat_mem_of_isBlank {c : Char} (h : isBlank c = true) :
    c.toNat ∈ blankRanges.flatMap fun r => List.range' r.1 (r.2 + 1 - r.1) := by
  obtain ⟨r, hr, hc⟩ := List.any_eq_true.mp h
  rw [Bool.and_eq_true, decide_eq_true_eq, decide_eq_true_eq] at hc
  rw [List.mem_flatMap]
  refine ⟨r, hr, ?_⟩
  rw [List.mem_range'_1]
  omega

theorem isNamePart_of_isBlank {c : Char} (h : isBlank c = true) : isNamePart c = false := by
  have hall : ∀ n ∈ blankRanges.flatMap fun r => List.range' r.1 (r.2 + 1 - r.1),
      isNamePart (Char.ofNat n) = false := by decide +kernel
  have hc := hall c.toNat (toNat_mem_of_isBlank h)
  rwa [Char.ofNat_toNat] at hc

theorem isNamePart_of_isNameStart {c : Char} (h : isNameStart c = true) : isNamePart c = true := by
  unfold isNameStart at h
  unfold isNamePart
  rw [h]
  rfl

theorem isAsciiDigit_iff {c : Char} : isAsciiDigit c = true ↔ '0' ≤ c ∧ c ≤ '9' := by
  unfold isAsciiDigit
  rw [Bool.and_eq_true, decide_eq_true_eq, decide_eq_true_eq]

private theorem toNat_mem_of_isAsciiDigit {c : Char} (h : isAsciiDigit c = true) :
    c.toNat ∈ List.range' 0x30 10 := by
  obtain ⟨hlow, hhigh⟩ := isAsciiDigit_iff.mp h
  have hlow' : 0x30 ≤ c.toNat := hlow
  have hhigh' : c.toNat ≤ 0x39 := hhigh
  rw [List.mem_range'_1]
  omega

theorem isNamePart_of_isAsciiDigit {c : Char} (h : isAsciiDigit c = true) :
    isNamePart c = true := by
  have hall : ∀ n ∈ List.range' 0x30 10, isNamePart (Char.ofNat n) = true := by decide
  have hc := hall c.toNat (toNat_mem_of_isAsciiDigit h)
  rwa [Char.ofNat_toNat] at hc

theorem isNameStart_of_isAsciiDigit {c : Char} (h : isAsciiDigit c = true) :
    isNameStart c = false := by
  have hall : ∀ n ∈ List.range' 0x30 10, isNameStart (Char.ofNat n) = false := by decide
  have hc := hall c.toNat (toNat_mem_of_isAsciiDigit h)
  rwa [Char.ofNat_toNat] at hc

theorem isAsciiDigit_of_isNamePart {c : Char} (h : isNamePart c = false) :
    isAsciiDigit c = false := by
  cases hd : isAsciiDigit c with
  | false => rfl
  | true =>
      rw [isNamePart_of_isAsciiDigit hd] at h
      exact absurd h (by decide)

theorem isAsciiDigit_of_isNameStart {c : Char} (h : isNameStart c = true) :
    isAsciiDigit c = false := by
  cases hd : isAsciiDigit c with
  | false => rfl
  | true =>
      rw [isNameStart_of_isAsciiDigit hd] at h
      exact absurd h (by decide)

/-- The character that a byte outside well-formed text reads as is in no class of the grammar. -/
theorem isNamePart_replacement : isNamePart Glyph.replacement = false := by decide +kernel

theorem isBlank_replacement : isBlank Glyph.replacement = false := by decide

theorem isName_iff {name : Bytes} :
    IsName name ↔ ∃ c cs, isNameStart c = true ∧ (∀ d ∈ cs, isNamePart d = true)
      ∧ name = utf8 (c :: cs) := by
  unfold IsName isNameStart isNamePart
  simp only [Bool.or_eq_true, decide_eq_true_eq, or_assoc]

/-! ## §5. The edges of tokens. -/

/-- The first characters of a token's forms. -/
def Token.Opens : Token → Char → Prop
  | .op _, c | .label _, c => isNameStart c = true
  | .directive _, c => c = '.'
  | .reference _, c => c = '@'
  | .register _, c => c = '$'
  | .immediate _, c => c = '#'
  | .string _, c => c = '\''

theorem IsName.opens {name : Bytes} (h : IsName name) :
    ∃ c tail, name = String.utf8EncodeChar c ++ tail ∧ isNameStart c = true := by
  obtain ⟨c, cs, hc, _, rfl⟩ := isName_iff.mp h
  exact ⟨c, utf8 cs, rfl, hc⟩

theorem Spells.opens {t : Token} {form : Bytes} (h : Spells t form) :
    ∃ c tail, form = String.utf8EncodeChar c ++ tail ∧ t.Opens c := by
  cases h with
  | op hname _ => exact hname.opens
  | label hname =>
      obtain ⟨c, tail, rfl, hc⟩ := hname.opens
      exact ⟨c, tail ++ [asciiByte ':'], List.append_assoc _ _ _, hc⟩
  | directive _ => exact ⟨'.', _, rfl, rfl⟩
  | reference _ => exact ⟨'@', _, rfl, rfl⟩
  | register _ _ => exact ⟨'$', _, rfl, rfl⟩
  | immediate _ _ => exact ⟨'#', _, rfl, rfl⟩
  | negative _ _ => exact ⟨'#', _, rfl, rfl⟩
  | string _ => exact ⟨'\'', _, rfl, rfl⟩

theorem Spells.ne_nil {t : Token} {form : Bytes} (h : Spells t form) : form ≠ [] := by
  obtain ⟨c, tail, rfl, _⟩ := h.opens
  intro hnil
  exact String.utf8EncodeChar_ne_nil (List.append_eq_nil_iff.mp hnil).1

/-- The empty text writes no token. -/
theorem Written.eq_nil {prev : Option Token} {ts : List Token} {src : Bytes}
    (h : Written prev ts src) (hsrc : src = []) : ts = [] := by
  cases h with
  | done _ => rfl
  | token _ _ hform _ =>
      have hnil := (List.append_eq_nil_iff.mp hsrc).2
      exact absurd (List.append_eq_nil_iff.mp hnil).1 hform.ne_nil

/-- A token opens with a name, or else with one of five marks. -/
theorem Token.Opens.name_or_mark {t : Token} {c : Char} (h : t.Opens c) :
    t.startsWithName = true ∧ isNameStart c = true
      ∨ t.startsWithName = false ∧ c ∈ ['.', '@', '$', '#', '\''] := by
  cases t with
  | op byte => exact Or.inl ⟨rfl, h⟩
  | label name => exact Or.inl ⟨rfl, h⟩
  | register index => exact Or.inr ⟨rfl, by rw [show c = '$' from h]; decide⟩
  | immediate value => exact Or.inr ⟨rfl, by rw [show c = '#' from h]; decide⟩
  | reference name => exact Or.inr ⟨rfl, by rw [show c = '@' from h]; decide⟩
  | directive name => exact Or.inr ⟨rfl, by rw [show c = '.' from h]; decide⟩
  | string text => exact Or.inr ⟨rfl, by rw [show c = '\'' from h]; decide⟩

/-- The marks are in no name. -/
theorem isNamePart_of_mark {c : Char} (h : c ∈ ['.', '@', '$', '#', '\'']) :
    isNamePart c = false := by
  have hall : (['.', '@', '$', '#', '\''].all fun d => isNamePart d == false) = true := by decide
  exact eq_of_beq (List.all_eq_true.mp hall c h)

theorem Token.Opens.isNamePart_eq {t : Token} {c : Char} (h : t.Opens c) :
    isNamePart c = t.startsWithName := by
  rcases h.name_or_mark with ⟨ht, hc⟩ | ⟨ht, hc⟩
  · rw [ht, isNamePart_of_isNameStart hc]
  · rw [ht, isNamePart_of_mark hc]

/-- A character that opens no name and is no mark opens no token. -/
theorem Token.Opens.ne {t : Token} {c d : Char} (h : t.Opens c) (hstart : isNameStart d = false)
    (hmark : d ∉ ['.', '@', '$', '#', '\'']) : c ≠ d := by
  rintro rfl
  rcases h.name_or_mark with ⟨_, hc⟩ | ⟨_, hc⟩
  · rw [hstart] at hc
    exact absurd hc (by decide)
  · exact hmark hc

/-- No token opens with white space. -/
theorem Token.Opens.isBlank_eq {t : Token} {c : Char} (h : t.Opens c) : isBlank c = false := by
  have hmarks : (['.', '@', '$', '#', '\''].all fun d => isBlank d == false) = true := by decide
  rcases h.name_or_mark with ⟨_, hc⟩ | ⟨_, hc⟩
  · cases hb : isBlank c with
    | false => rfl
    | true =>
        have hpart := isNamePart_of_isNameStart hc
        rw [isNamePart_of_isBlank hb] at hpart
        exact absurd hpart (by decide)
  · exact eq_of_beq (List.all_eq_true.mp hmarks c hc)

/-- The text does not start with a character of a class. -/
def Stops (p : Char → Bool) (src : Bytes) : Prop := ∀ g ∈ (glyphs src).head?, p g.char = false

theorem stops_nil (p : Char → Bool) : Stops p [] := by
  intro g hg
  exact absurd hg (by simp)

theorem stops_utf8EncodeChar_append {p : Char → Bool} {c : Char} {rest : Bytes} :
    Stops p (String.utf8EncodeChar c ++ rest) ↔ p c = false := by
  unfold Stops
  rw [glyphs_utf8EncodeChar_append, List.head?_cons]
  constructor
  · intro h
    exact h (Glyph.ofChar c) rfl
  · rintro h g hg
    cases hg
    exact h

theorem stops_asciiByte_cons {p : Char → Bool} {k : Char} (hk : k.toNat < 0x80) {rest : Bytes} :
    Stops p (asciiByte k :: rest) ↔ p k = false := by
  have h : Stops p (String.utf8EncodeChar k ++ rest) ↔ p k = false := stops_utf8EncodeChar_append
  rwa [utf8EncodeChar_ascii hk] at h

theorem Gap.stops_append {p : Char → Bool} (hblank : ∀ c, isBlank c = true → p c = false)
    (hsemi : p ';' = false) {gap rest : Bytes} (hgap : Gap gap) (hrest : gap = [] → Stops p rest) :
    Stops p (gap ++ rest) := by
  cases hgap with
  | nil => exact hrest rfl
  | blank hc hmore =>
      rw [List.append_assoc]
      exact stops_utf8EncodeChar_append.mpr (hblank _ hc)
  | comment hbody hmore => exact (stops_asciiByte_cons (by decide)).mpr hsemi

/-- **What follows a token.**  A written text goes on with none of the characters of a class that
neither gaps nor the tokens that may follow open with. -/
theorem Written.stops {p : Char → Bool} {prev : Option Token} {ts : List Token} {src : Bytes}
    (hblank : ∀ c, isBlank c = true → p c = false) (hsemi : p ';' = false)
    (hopen : ∀ t c, ¬Token.Clash prev t → t.Opens c → p c = false) (h : Written prev ts src) :
    Stops p src := by
  cases h with
  | done hlast =>
      cases hlast with
      | closed hgap =>
          have hstops := hgap.stops_append hblank hsemi (fun _ => stops_nil p)
          rwa [List.append_nil] at hstops
      | comment hgap _ =>
          exact hgap.stops_append hblank hsemi
            (fun _ => (stops_asciiByte_cons (by decide)).mpr hsemi)
  | token hgap hclash hform hrest =>
      refine hgap.stops_append hblank hsemi ?_
      intro hnil
      obtain ⟨c, tail, rfl, hc⟩ := hform.opens
      rw [List.append_assoc]
      exact stops_utf8EncodeChar_append.mpr (hopen _ c (hclash hnil) hc)

/-- A name is followed by no character that would continue it. -/
theorem Written.stops_isNamePart {t : Token} (ht : t.endsInName = true) {ts : List Token}
    {src : Bytes} (h : Written (some t) ts src) : Stops isNamePart src := by
  refine h.stops (fun _ => isNamePart_of_isBlank) (by decide) ?_
  intro u c hclash hc
  rw [hc.isNamePart_eq]
  cases hu : u.startsWithName with
  | false => rfl
  | true => exact absurd ⟨t, rfl, ht, hu⟩ hclash

/-- No text goes on with a digit: digits are followed by no digit. -/
theorem Written.stops_isAsciiDigit {prev : Option Token} {ts : List Token} {src : Bytes}
    (h : Written prev ts src) : Stops isAsciiDigit src := by
  refine h.stops (fun c hc => isAsciiDigit_of_isNamePart (isNamePart_of_isBlank hc)) (by decide) ?_
  intro t c _ hc
  rcases hc.name_or_mark with ⟨_, hstart⟩ | ⟨_, hmark⟩
  · exact isAsciiDigit_of_isNameStart hstart
  · exact isAsciiDigit_of_isNamePart (isNamePart_of_mark hmark)

/-- No text goes on with a character that is not blank and opens neither a comment nor a token. -/
theorem Written.stops_char {d : Char} (hblank : isBlank d = false) (hsemi : d ≠ ';')
    (hstart : isNameStart d = false) (hmark : d ∉ ['.', '@', '$', '#', '\'']) {prev : Option Token}
    {ts : List Token} {src : Bytes} (h : Written prev ts src) : Stops (· = d) src := by
  refine h.stops ?_ (decide_eq_false hsemi.symm) ?_
  · intro c hc
    rw [decide_eq_false_iff_not]
    rintro rfl
    rw [hblank] at hc
    exact absurd hc (by decide)
  · intro t c _ hc
    rw [decide_eq_false_iff_not]
    exact hc.ne hstart hmark

/-- No text goes on with a colon: the name of an operation is never taken for a label. -/
theorem Written.stops_colon {prev : Option Token} {ts : List Token} {src : Bytes}
    (h : Written prev ts src) : Stops (· = ':') src :=
  h.stops_char (by decide) (by decide) (by decide) (by decide)

end Quartet
