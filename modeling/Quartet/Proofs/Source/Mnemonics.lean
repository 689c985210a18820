/-
  Quartet.Proofs.Source.Mnemonics
  ───────────────────────────────
  **A NAME IS FOUND IN EVERY SPELLING OF ITS LETTERS, AND IN NO OTHER.**

  An operation is looked up by its name in lower case, one code point after the other.  Bytes that are
  no UTF-8 are read as a replacement character, and there are code points outside ASCII whose lower case
  is an ASCII letter.  What is found is told by the letters of the names alone:

    • `Opcode.Spelling` — a byte string spells a word: code points that stand for its letters,
    • `Opcode.map_lower_eq_iff` — a text is a word in lower case exactly if it spells the word,
    • `Opcode.fill_eq_some_iff` — a table that is filled by overwriting keeps all its entries if their
      names are distinct, as those of the operations are,
    • `lookup_exact` — hence a name is found in its spellings, whatever else the lower case does.
-/
import Mathlib.Data.List.Forall2
import Mathlib.Data.List.Induction
import Quartet.Proofs.Source.Printing

namespace Quartet

namespace Opcode

/-! ## §1. Spelling. -/

/-- A code point stands for a letter: it is the letter, its capital, or the dotted capital I. -/
def StandsFor (c letter : Char) : Prop :=
  c = letter ∨ c = letter.toUpper ∨ letter = 'i' ∧ c.toNat = 0x130

/-- A byte string spells a word: it is the UTF-8 of as many code points as the word has letters, each
of which stands for the letter in its place. -/
def Spelling (word : List Char) (s : Bytes) : Prop :=
  ∃ cs, s = utf8 cs ∧ List.Forall₂ StandsFor cs word

/-- A way to write code points in lower case under which a lower-case ASCII letter comes from what
stands for it, and `k` also from the kelvin sign.  About all other code points nothing is said, but that
they do not become ASCII letters. -/
def LowersAscii (low : Char → Char) : Prop :=
  ∀ c letter : Char, 'a' ≤ letter → letter ≤ 'z' →
    (low c = letter ↔ StandsFor c letter ∨ letter = 'k' ∧ c.toNat = 0x212A)

/-- The letters that names are made of. -/
def IsNameLetter (letter : Char) : Prop := 'a' ≤ letter ∧ letter ≤ 'z' ∧ letter ≠ 'k'

instance (letter : Char) : Decidable (IsNameLetter letter) := inferInstanceAs (Decidable (_ ∧ _))

theorem isNameLetter_of_names {op : Opcode} {name : String} (hname : name ∈ op.names) :
    ∀ letter ∈ name.toList, IsNameLetter letter := by
  have hall : (op.names.all fun n => n.toList.all fun k => decide (IsNameLetter k)) = true := by
    cases op <;> decide
  intro letter hletter
  have hname' := List.all_eq_true.mp hall name hname
  exact of_decide_eq_true (List.all_eq_true.mp hname' letter hletter)

/-- The capitals are 32 places before their letters. -/
theorem toNat_toUpper {letter : Char} (hlow : 97 ≤ letter.toNat) (hhigh : letter.toNat ≤ 122) :
    letter.toUpper.toNat = letter.toNat - 32 := by
  have hall : ∀ n : Fin 26, (Char.ofNat (97 + n.val)).toUpper.toNat = 65 + n.val := by decide
  have hletter : (Char.ofNat (97 + (letter.toNat - 97))).toUpper.toNat =
      65 + (letter.toNat - 97) := hall ⟨letter.toNat - 97, by omega⟩
  rw [show 97 + (letter.toNat - 97) = letter.toNat by omega, Char.ofNat_toNat] at hletter
  omega

/-- What stands for a letter, by code points. -/
theorem standsFor_iff {c letter : Char} (hlow : 97 ≤ letter.toNat) (hhigh : letter.toNat ≤ 122) :
    StandsFor c letter ↔ c.toNat = letter.toNat ∨ c.toNat = letter.toNat - 32 ∨
      letter.toNat = 105 ∧ c.toNat = 0x130 := by
  unfold StandsFor
  rw [← Char.toNat_inj, ← Char.toNat_inj, ← Char.toNat_inj, toNat_toUpper hlow hhigh]
  rfl

/-- **The library's lower case is such a way.** -/
theorem lowersAscii_lower : LowersAscii fun c => (Glyph.ofChar c).lower := by
  intro c letter hlow hhigh
  have hlow' : 97 ≤ letter.toNat := hlow
  have hhigh' : letter.toNat ≤ 122 := hhigh
  rw [standsFor_iff hlow' hhigh', ← Char.toNat_inj, ← Char.toNat_inj]
  show (Glyph.lower ⟨c, String.utf8EncodeChar c⟩).toNat = letter.toNat ↔
    _ ∨ letter.toNat = 107 ∧ c.toNat = 0x212A
  unfold Glyph.lower
  -- One case for each kind of code point, and numbers only in each of them.
  split
  · next hcapital =>
    have hcapital' : 65 ≤ c.toNat ∧ c.toNat ≤ 90 := hcapital
    have hvalid : (c.toNat + 32).isValidChar := Or.inl (by omega)
    rw [Char.ofNat, dif_pos hvalid]
    show c.toNat + 32 = letter.toNat ↔ _
    omega
  · next hcapital =>
    have hcapital' : ¬(65 ≤ c.toNat ∧ c.toNat ≤ 90) := hcapital
    split
    · next hdotted =>
      have hdotted' : c.toNat = 0x130 := hdotted
      show 105 = letter.toNat ↔ _
      omega
    · split
      · next hkelvin =>
        have hkelvin' : c.toNat = 0x212A := hkelvin
        show 107 = letter.toNat ↔ _
        omega
      · next hdotted hkelvin =>
        have hdotted' : ¬c.toNat = 0x130 := hdotted
        have hkelvin' : ¬c.toNat = 0x212A := hkelvin
        show c.toNat = letter.toNat ↔ _
        omega

/-- What stands for a letter is not what a stray byte is read as. -/
theorem StandsFor.ne_replacement {c letter : Char} (h : StandsFor c letter)
    (hletter : IsNameLetter letter) : c ≠ Glyph.replacement := by
  have hlow : 97 ≤ letter.toNat := hletter.1
  have hhigh : letter.toNat ≤ 122 := hletter.2.1
  rw [standsFor_iff hlow hhigh] at h
  intro hreplacement
  have hstray : c.toNat = 0xFFFD := by
    rw [hreplacement]
    rfl
  omega

/-! ## §2. Words in lower case. -/

section Words

variable {low : Char → Char} (hlow : LowersAscii low)
include hlow

theorem lower_eq_iff (c : Char) {letter : Char} (hletter : IsNameLetter letter) :
    low c = letter ↔ StandsFor c letter := by
  obtain ⟨hfirst, hlast, hk⟩ := hletter
  rw [hlow c letter hfirst hlast]
  constructor
  · intro h
    rcases h with h | ⟨hkelvin, -⟩
    · exact h
    · exact absurd hkelvin hk
  · intro h
    exact Or.inl h

/-- Code points stand for the letters of a word exactly if they are the word in lower case. -/
theorem forall₂_standsFor_iff (cs : List Char) :
    ∀ word : List Char, (∀ letter ∈ word, IsNameLetter letter) →
      (List.Forall₂ StandsFor cs word ↔ cs.map low = word) := by
  induction cs with
  | nil =>
      intro word _
      cases word <;> simp
  | cons c cs ih =>
      intro word hword
      cases word with
      | nil => simp
      | cons letter word =>
          have hc := lower_eq_iff hlow c (hword letter List.mem_cons_self)
          have hrest := ih word fun k hk => hword k (List.mem_cons_of_mem _ hk)
          rw [List.forall₂_cons, List.map_cons, List.cons.injEq, hc, hrest]

/-- **A text is a word in lower case exactly if it spells the word.** -/
theorem map_lower_eq_iff {word : List Char} (hword : ∀ letter ∈ word, IsNameLetter letter) (s : Bytes) :
    (glyphs s).map (fun g => low g.char) = word ↔ Spelling word s := by
  constructor
  · intro h
    have hchars : ((glyphs s).map Glyph.char).map low = word := by
      rw [List.map_map]
      exact h
    -- no byte is stray: each glyph becomes a letter of the word
    have hglyphs : (glyphs s).map (fun g => Glyph.ofChar g.char) = glyphs s := by
      refine (List.map_congr_left ?_).trans (List.map_id _)
      intro g hg
      have hmem : low g.char ∈ word := h ▸ List.mem_map_of_mem hg
      have hletter := hword _ hmem
      have hstands := (lower_eq_iff hlow g.char hletter).mp rfl
      exact ((Glyph.read_of_mem hg).eq_ofChar (hstands.ne_replacement hletter)).symm
    refine ⟨(glyphs s).map Glyph.char, ?_, (forall₂_standsFor_iff hlow _ word hword).mpr hchars⟩
    rw [← unread_map_ofChar, List.map_map]
    exact (unread_glyphs s).symm.trans (congrArg unread hglyphs.symm)
  · rintro ⟨cs, rfl, hstands⟩
    rw [glyphs_utf8, List.map_map]
    exact (forall₂_standsFor_iff hlow cs word hword).mp hstands

end Words

/-! ## §3. The table of names. -/

/-- The entries of the table: every name with its operation, in the order of the operations. -/
def entries : List (List Char × Opcode) := all.flatMap fun op => op.names.map fun n => (n.toList, op)

/-- A table that is filled with entries one after the other: an entry replaces what was written under its
name before. -/
def fill (table : List (List Char × Opcode)) : List Char → Option Opcode :=
  table.foldl (fun filled entry name => if name = entry.1 then some entry.2 else filled name)
    fun _ => none

/-- The table by names. -/
def index : List Char → Option Opcode := fill entries

/-- **Nothing is overwritten** if the names are distinct. -/
theorem fill_eq_some_iff {table : List (List Char × Opcode)} (hnodup : (table.map Prod.fst).Nodup)
    (name : List Char) (op : Opcode) : fill table name = some op ↔ (name, op) ∈ table := by
  induction table using List.reverseRecOn with
  | nil => simp [fill]
  | append_singleton table entry ih =>
      rw [List.map_append, List.nodup_append] at hnodup
      obtain ⟨htable, -, hnew⟩ := hnodup
      have hlast : fill (table ++ [entry]) name =
          if name = entry.1 then some entry.2 else fill table name := by
        simp [fill]
      rw [hlast, List.mem_append, List.mem_singleton]
      by_cases hname : name = entry.1
      · -- the name is that of the last entry, so no entry before has it
        rw [if_pos hname]
        constructor
        · intro h
          rw [hname, ← Option.some.inj h]
          exact Or.inr rfl
        · intro h
          rcases h with h | h
          · exact absurd hname (hnew name (List.mem_map_of_mem h) entry.1 (by simp))
          · rw [← h]
      · rw [if_neg hname, ih htable]
        constructor
        · intro h
          exact Or.inl h
        · intro h
          rcases h with h | h
          · exact h
          · exact absurd (congrArg Prod.fst h) hname

theorem nodup_entries : (entries.map Prod.fst).Nodup := by
  decide

theorem mem_all (op : Opcode) : op ∈ all := by
  cases op <;> decide

/-- **The table by names holds every name with its operation**, aliases and all. -/
theorem index_eq_some_iff (name : List Char) (op : Opcode) :
    index name = some op ↔ ∃ n ∈ op.names, n.toList = name := by
  unfold index
  rw [fill_eq_some_iff nodup_entries]
  unfold entries
  rw [List.mem_flatMap]
  constructor
  · rintro ⟨op', -, h⟩
    obtain ⟨n, hn, heq⟩ := List.mem_map.mp h
    obtain ⟨rfl, rfl⟩ := Prod.mk.inj heq
    exact ⟨n, hn, rfl⟩
  · rintro ⟨n, hn, rfl⟩
    exact ⟨op, mem_all op, List.mem_map_of_mem hn⟩

/-- Looking a name up is looking its lower case up in the table. -/
theorem lookup?_eq_index (s : Bytes) : lookup? s = index ((glyphs s).map Glyph.lower) := by
  unfold lookup?
  generalize (glyphs s).map Glyph.lower = word
  cases hfind : all.find? fun op => op.names.any fun n => n.toList = word with
  | some op =>
      have hany := List.find?_some hfind
      obtain ⟨n, hn, hword⟩ := List.any_eq_true.mp hany
      symm
      rw [index_eq_some_iff]
      exact ⟨n, hn, of_decide_eq_true hword⟩
  | none =>
      symm
      rw [Option.eq_none_iff_forall_ne_some]
      intro op hindex
      obtain ⟨n, hn, hword⟩ := (index_eq_some_iff word op).mp hindex
      refine List.find?_eq_none.mp hfind op (mem_all op) ?_
      exact List.any_eq_true.mpr ⟨n, hn, decide_eq_true hword⟩

/-- What is found in the table under a text in lower case is the operation of a name it spells. -/
theorem index_lower_eq_some_iff {low : Char → Char} (hlow : LowersAscii low) (s : Bytes) (op : Opcode) :
    index ((glyphs s).map fun g => low g.char) = some op ↔
      ∃ name ∈ op.names, Spelling name.toList s := by
  rw [index_eq_some_iff]
  constructor
  · rintro ⟨n, hn, hword⟩
    exact ⟨n, hn, (map_lower_eq_iff hlow (isNameLetter_of_names hn) s).mp hword.symm⟩
  · rintro ⟨n, hn, hspelling⟩
    exact ⟨n, hn, ((map_lower_eq_iff hlow (isNameLetter_of_names hn) s).mpr hspelling).symm⟩

theorem lookup?_eq_some_iff (s : Bytes) (op : Opcode) :
    lookup? s = some op ↔ ∃ name ∈ op.names, Spelling name.toList s := by
  rw [lookup?_eq_index]
  exact index_lower_eq_some_iff lowersAscii_lower s op

/-- The canonical name of an operation is the first of its names. -/
theorem mnemonic_eq_utf8 (op : Opcode) : ∃ name ∈ op.names, op.mnemonic = utf8 name.toList := by
  have hmem : op.names.headD "" ∈ op.names := by
    cases op <;> decide
  refine ⟨op.names.headD "", hmem, ?_⟩
  symm
  apply utf8_of_ascii
  intro c hc
  have hle : c.toNat ≤ 122 := (isNameLetter_of_names hmem c hc).2.1
  omega

end Opcode

/-- **A name is found in every spelling of its letters, and in no other.**  A byte string is looked up as
an operation exactly if it is the UTF-8 of code points that stand one by one for the letters of a name of
the operation.  No byte string spells names of two operations, and every spelling of a canonical name
leads back to its operation.  All this is so in a table that is filled by overwriting, and with any lower
case that takes no other code points to ASCII letters. -/
theorem lookup_exact (s : Bytes) :
    (∀ op, Opcode.lookup? s = some op ↔ ∃ name ∈ op.names, Opcode.Spelling name.toList s) ∧
    (∀ op other : Opcode, (∃ name ∈ op.names, Opcode.Spelling name.toList s) →
      (∃ name ∈ other.names, Opcode.Spelling name.toList s) → op = other) ∧
    (∀ (op : Opcode) (cs : List Char), op.mnemonic = utf8 cs → Opcode.Spelling cs s →
      Opcode.lookup? s = some op) ∧
    ∀ low, Opcode.LowersAscii low →
      Opcode.lookup? s = Opcode.index ((glyphs s).map fun g => low g.char) := by
  refine ⟨Opcode.lookup?_eq_some_iff s, ?_, ?_, ?_⟩
  · intro op other hop hother
    rw [← Opcode.lookup?_eq_some_iff] at hop hother
    exact Option.some.inj (hop.symm.trans hother)
  · intro op cs hcs hspelling
    obtain ⟨name, hname, hmnemonic⟩ := op.mnemonic_eq_utf8
    -- the code points of a text are told by its bytes
    have hsame : cs.map Glyph.ofChar = name.toList.map Glyph.ofChar := by
      rw [← glyphs_utf8, ← glyphs_utf8, ← hcs, hmnemonic]
    have hword : cs = name.toList := by
      have hchars := congrArg (List.map Glyph.char) hsame
      rwa [List.map_map, List.map_map, show Glyph.char ∘ Glyph.ofChar = id from rfl, List.map_id,
        List.map_id] at hchars
    rw [Opcode.lookup?_eq_some_iff]
    exact ⟨name, hname, hword ▸ hspelling⟩
  · intro low hlow
    apply Option.ext
    intro op
    rw [Opcode.lookup?_eq_some_iff, Opcode.index_lower_eq_some_iff hlow]

/-- Both cases and a dotted capital I: a spelling of `div`. -/
def dottedName : Bytes := utf8 ['D', Char.ofNat 0x130, 'v']

theorem lookup_exact_sample :
    Opcode.Spelling "div".toList dottedName ∧ Opcode.lookup? dottedName = some .div ∧
    Opcode.index ((glyphs dottedName).map fun g => (Glyph.ofChar g.char).lower) = some .div ∧
    Opcode.lookup? [0x67, 0x74, 0xFF] = none := by
  have hspelling : Opcode.Spelling "div".toList dottedName := by
    refine ⟨_, rfl, .cons (Or.inr (Or.inl rfl)) (.cons (Or.inr (Or.inr ⟨rfl, rfl⟩)) ?_)⟩
    exact .cons (Or.inl rfl) .nil
  obtain ⟨hfound, -, hback, htable⟩ := lookup_exact dottedName
  have hdiv : Opcode.lookup? dottedName = some .div := hback .div "div".toList (by decide) hspelling
  refine ⟨hspelling, hdiv, ?_, ?_⟩
  · rw [← htable _ Opcode.lowersAscii_lower, hdiv]
  · decide +kernel

end Quartet
