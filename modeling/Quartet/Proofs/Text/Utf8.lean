/-
  Quartet.Proofs.Text.Utf8
  ────────────────────────
  **READING UTF-8 IS THE INVERSE OF WRITING IT.**

  `glyphs` reads code points out of any byte string.  Here it is held against the encoding of
  `String.utf8EncodeChar`:

    • `glyphs_utf8_append` — well-formed text is read back, whatever follows it,
    • `glyphs_append_ascii` — what stands before an ASCII byte is read on its own, well-formed or
      not,
    • `glyphs_eq_append`, `glyphs_unread_of_append` — so is either part of a text that is cut where
      a glyph ends,
    • `Glyph.read_of_mem` — a glyph is an encoded code point or a stray byte of 0x80 or more.

  So an ASCII character stands in a byte string exactly where its byte stands.
-/
import Quartet.Text.Glyph

namespace Quartet

/-! ## §1. Writing. -/

/-- The bytes of a text that is given by its code points. -/
def utf8 (cs : List Char) : Bytes := cs.flatMap String.utf8EncodeChar

/-- A code point with its encoding. -/
def Glyph.ofChar (c : Char) : Glyph := ⟨c, String.utf8EncodeChar c⟩

@[simp] theorem utf8_nil : utf8 [] = [] := rfl

@[simp] theorem utf8_cons (c : Char) (cs : List Char) :
    utf8 (c :: cs) = String.utf8EncodeChar c ++ utf8 cs :=
  rfl

theorem utf8_append (cs ds : List Char) : utf8 (cs ++ ds) = utf8 cs ++ utf8 ds := List.flatMap_append

theorem unread_map_ofChar (cs : List Char) : unread (cs.map Glyph.ofChar) = utf8 cs := by
  induction cs with
  | nil => rfl
  | cons c cs ih =>
      show String.utf8EncodeChar c ++ unread (cs.map Glyph.ofChar) = _
      rw [ih]
      rfl

/-- The encoding of an ASCII character is its byte. -/
theorem utf8EncodeChar_ascii {c : Char} (hc : c.toNat < 0x80) :
    String.utf8EncodeChar c = [asciiByte c] := by
  unfold String.utf8EncodeChar
  have hle : c.val.toNat ≤ 0x7f := Nat.le_of_lt_succ hc
  rw [if_pos hle]
  rfl

/-! ## §2. One code point. -/

theorem ofNat_eq_of_toNat {n : Nat} {a : UInt8} (h : n = a.toNat) : UInt8.ofNat n = a := by
  rw [h, UInt8.ofNat_toNat]

namespace Glyph

/-- A continuation byte carries its six bits. -/
theorem payload?_continuation (n : Nat) : payload? (UInt8.ofNat (n % 64 + 0x80)) = some (n % 64) := by
  unfold payload?
  rw [UInt8.toNat_ofNat_of_lt' (show _ < 256 by omega), if_pos (by omega)]
  congr 1
  omega

theorem payload?_eq_some {b : UInt8} {x : Nat} (h : payload? b = some x) :
    b.toNat = x + 0x80 ∧ x < 64 := by
  unfold payload? at h
  split at h
  · next hb =>
    have hx : b.toNat % 64 = x := Option.some.inj h
    omega
  · exact absurd h (by simp)

/-- A number that is the code point of a character stands for it. -/
theorem scalar?_toNat {least : Nat} {c : Char} (h : least ≤ c.toNat) :
    scalar? least c.toNat = some c := by
  unfold scalar?
  rw [if_pos ⟨h, c.valid⟩, Char.ofNat_toNat]

theorem scalar?_eq_some {least v : Nat} {c : Char} (h : scalar? least v = some c) :
    least ≤ v ∧ c.toNat = v := by
  unfold scalar? at h
  split at h
  · next hv =>
    refine ⟨hv.1, ?_⟩
    rw [← Option.some.inj h, Char.ofNat, dif_pos hv.2]
    rfl
  · exact absurd h (by simp)

/-- The two bytes of a code point from 0x80 on. -/
theorem two?_of_toNat {c : Char} (hlow : 0x80 ≤ c.toNat) (hhigh : c.toNat < 0x800) :
    two? (UInt8.ofNat (c.toNat / 64 % 0x20 + 0xc0)) (UInt8.ofNat (c.toNat % 64 + 0x80))
      = some c := by
  unfold two?
  rw [payload?_continuation, UInt8.toNat_ofNat_of_lt' (show _ < 256 by omega)]
  show scalar? 0x80 ((c.toNat / 64 % 0x20 + 0xc0) % 32 * 64 + c.toNat % 64) = some c
  rw [show (c.toNat / 64 % 0x20 + 0xc0) % 32 * 64 + c.toNat % 64 = c.toNat by omega]
  exact scalar?_toNat hlow

/-- The three bytes of a code point from 0x800 on. -/
theorem three?_of_toNat {c : Char} (hlow : 0x800 ≤ c.toNat) (hhigh : c.toNat < 0x10000) :
    three? (UInt8.ofNat (c.toNat / 4096 % 0x10 + 0xe0)) (UInt8.ofNat (c.toNat / 64 % 64 + 0x80))
      (UInt8.ofNat (c.toNat % 64 + 0x80)) = some c := by
  unfold three?
  rw [payload?_continuation, payload?_continuation, UInt8.toNat_ofNat_of_lt' (show _ < 256 by omega)]
  show scalar? 0x800
    (((c.toNat / 4096 % 0x10 + 0xe0) % 16 * 64 + c.toNat / 64 % 64) * 64 + c.toNat % 64) = some c
  rw [show ((c.toNat / 4096 % 0x10 + 0xe0) % 16 * 64 + c.toNat / 64 % 64) * 64 + c.toNat % 64
        = c.toNat by omega]
  exact scalar?_toNat hlow

/-- The four bytes of a code point from 0x10000 on. -/
theorem four?_of_toNat {c : Char} (hlow : 0x10000 ≤ c.toNat) (hhigh : c.toNat < 0x110000) :
    four? (UInt8.ofNat (c.toNat / 262144 % 0x08 + 0xf0))
      (UInt8.ofNat (c.toNat / 4096 % 64 + 0x80)) (UInt8.ofNat (c.toNat / 64 % 64 + 0x80))
      (UInt8.ofNat (c.toNat % 64 + 0x80)) = some c := by
  unfold four?
  rw [payload?_continuation, payload?_continuation, payload?_continuation,
      UInt8.toNat_ofNat_of_lt' (show _ < 256 by omega)]
  show scalar? 0x10000 ((((c.toNat / 262144 % 0x08 + 0xf0) % 8 * 64 + c.toNat / 4096 % 64) * 64
    + c.toNat / 64 % 64) * 64 + c.toNat % 64) = some c
  rw [show (((c.toNat / 262144 % 0x08 + 0xf0) % 8 * 64 + c.toNat / 4096 % 64) * 64
        + c.toNat / 64 % 64) * 64 + c.toNat % 64 = c.toNat by omega]
  exact scalar?_toNat hlow

/-- **One encoded code point is read back, whatever follows.** -/
theorem sequence?_utf8EncodeChar {c : Char} {a : UInt8} {tail : Bytes}
    (h : String.utf8EncodeChar c = a :: tail) (more : Bytes) :
    sequence? a (tail ++ more) = some (c, tail.length) := by
  have hval : c.val.toNat = c.toNat := rfl
  have hlt : c.toNat < 0x110000 := by
    rcases c.valid with hlow | hhigh <;> omega
  unfold String.utf8EncodeChar at h
  simp only [hval] at h
  unfold sequence?
  -- The first byte is in the range that belongs to the length of the encoding.
  by_cases h1 : c.toNat ≤ 0x7f
  · rw [if_pos h1] at h
    obtain ⟨rfl, rfl⟩ := List.cons.inj h
    rw [UInt8.toNat_ofNat_of_lt' (show _ < 256 by omega), if_pos (by omega), Char.ofNat_toNat]
    rfl
  · rw [if_neg h1] at h
    by_cases h2 : c.toNat ≤ 0x7ff
    · rw [if_pos h2] at h
      obtain ⟨rfl, rfl⟩ := List.cons.inj h
      rw [UInt8.toNat_ofNat_of_lt' (show _ < 256 by omega), if_neg (by omega), if_neg (by omega),
          if_pos (by omega)]
      show (two? _ _).map _ = _
      rw [two?_of_toNat (by omega) (by omega)]
      rfl
    · rw [if_neg h2] at h
      by_cases h3 : c.toNat ≤ 0xffff
      · rw [if_pos h3] at h
        obtain ⟨rfl, rfl⟩ := List.cons.inj h
        rw [UInt8.toNat_ofNat_of_lt' (show _ < 256 by omega), if_neg (by omega), if_neg (by omega),
            if_neg (by omega), if_pos (by omega)]
        show (three? _ _ _).map _ = _
        rw [three?_of_toNat (by omega) (by omega)]
        rfl
      · rw [if_neg h3] at h
        obtain ⟨rfl, rfl⟩ := List.cons.inj h
        rw [UInt8.toNat_ofNat_of_lt' (show _ < 256 by omega), if_neg (by omega), if_neg (by omega),
            if_neg (by omega), if_neg (by omega), if_pos (by omega)]
        show (four? _ _ _ _).map _ = _
        rw [four?_of_toNat (by omega) (by omega)]
        rfl

-- Conversely, a sequence is accepted only as the encoding of its code point: the shortest one.
theorem utf8EncodeChar_of_two? {a b : UInt8} {c : Char} (h : two? a b = some c)
    (ha : 0xC0 ≤ a.toNat ∧ a.toNat < 0xE0) : String.utf8EncodeChar c = [a, b] := by
  obtain ⟨x, hx, hc⟩ := Option.bind_eq_some_iff.mp h
  obtain ⟨hb, hx⟩ := payload?_eq_some hx
  obtain ⟨hleast, hc⟩ := scalar?_eq_some hc
  have hval : c.val.toNat = a.toNat % 32 * 64 + x := hc
  unfold String.utf8EncodeChar
  simp only [hval]
  rw [if_neg (by omega), if_pos (by omega), ofNat_eq_of_toNat (a := a) (by omega),
      ofNat_eq_of_toNat (a := b) (by omega)]

theorem utf8EncodeChar_of_three? {a b d : UInt8} {c : Char} (h : three? a b d = some c)
    (ha : 0xE0 ≤ a.toNat ∧ a.toNat < 0xF0) : String.utf8EncodeChar c = [a, b, d] := by
  obtain ⟨x, hx, h⟩ := Option.bind_eq_some_iff.mp h
  obtain ⟨y, hy, hc⟩ := Option.bind_eq_some_iff.mp h
  obtain ⟨hb, hx⟩ := payload?_eq_some hx
  obtain ⟨hd, hy⟩ := payload?_eq_some hy
  obtain ⟨hleast, hc⟩ := scalar?_eq_some hc
  have hval : c.val.toNat = (a.toNat % 16 * 64 + x) * 64 + y := hc
  unfold String.utf8EncodeChar
  simp only [hval]
  rw [if_neg (by omega), if_neg (by omega), if_pos (by omega),
      ofNat_eq_of_toNat (a := a) (by omega), ofNat_eq_of_toNat (a := b) (by omega),
      ofNat_eq_of_toNat (a := d) (by omega)]

theorem utf8EncodeChar_of_four? {a b d e : UInt8} {c : Char} (h : four? a b d e = some c)
    (ha : 0xF0 ≤ a.toNat ∧ a.toNat < 0xF8) : String.utf8EncodeChar c = [a, b, d, e] := by
  obtain ⟨x, hx, h⟩ := Option.bind_eq_some_iff.mp h
  obtain ⟨y, hy, h⟩ := Option.bind_eq_some_iff.mp h
  obtain ⟨z, hz, hc⟩ := Option.bind_eq_some_iff.mp h
  obtain ⟨hb, hx⟩ := payload?_eq_some hx
  obtain ⟨hd, hy⟩ := payload?_eq_some hy
  obtain ⟨he, hz⟩ := payload?_eq_some hz
  obtain ⟨hleast, hc⟩ := scalar?_eq_some hc
  have hval : c.val.toNat = ((a.toNat % 8 * 64 + x) * 64 + y) * 64 + z := hc
  unfold String.utf8EncodeChar
  simp only [hval]
  rw [if_neg (by omega), if_neg (by omega), if_neg (by omega),
      ofNat_eq_of_toNat (a := a) (by omega), ofNat_eq_of_toNat (a := b) (by omega),
      ofNat_eq_of_toNat (a := d) (by omega), ofNat_eq_of_toNat (a := e) (by omega)]

/-- **What is read as a code point is its encoding.** -/
theorem utf8EncodeChar_of_sequence? {a : UInt8} {rest : Bytes} {c : Char} {n : Nat}
    (h : sequence? a rest = some (c, n)) :
    String.utf8EncodeChar c = a :: rest.take n ∧ n ≤ rest.length := by
  -- One case for each length, told by the first byte; the other bytes start nothing.
  unfold sequence? at h
  split at h
  · next ha =>
    obtain ⟨rfl, rfl⟩ := Prod.mk.inj (Option.some.inj h)
    have hvalid : a.toNat.isValidChar := Or.inl (by omega)
    have hc : (Char.ofNat a.toNat).toNat = a.toNat := by
      rw [Char.ofNat, dif_pos hvalid]
      rfl
    refine ⟨?_, Nat.zero_le _⟩
    rw [utf8EncodeChar_ascii (by omega), asciiByte, hc, UInt8.ofNat_toNat]
    rfl
  · split at h
    · exact absurd h (by simp)
    · split at h
      · split at h
        · next b more =>
          obtain ⟨d, hd, hcn⟩ := Option.map_eq_some_iff.mp h
          obtain ⟨rfl, rfl⟩ := Prod.mk.inj hcn
          exact ⟨utf8EncodeChar_of_two? hd (by omega), by simp⟩
        · exact absurd h (by simp)
      · split at h
        · split at h
          · next b b' more =>
            obtain ⟨d, hd, hcn⟩ := Option.map_eq_some_iff.mp h
            obtain ⟨rfl, rfl⟩ := Prod.mk.inj hcn
            exact ⟨utf8EncodeChar_of_three? hd (by omega), by simp⟩
          · exact absurd h (by simp)
        · split at h
          · split at h
            · next b b' b'' more =>
              obtain ⟨d, hd, hcn⟩ := Option.map_eq_some_iff.mp h
              obtain ⟨rfl, rfl⟩ := Prod.mk.inj hcn
              exact ⟨utf8EncodeChar_of_four? hd (by omega), by simp⟩
            · exact absurd h (by simp)
          · exact absurd h (by simp)

/-- A code point that is read is read also if more follows. -/
theorem sequence?_append {a : UInt8} {rest : Bytes} {c : Char} {n : Nat}
    (h : sequence? a rest = some (c, n)) (more : Bytes) :
    sequence? a (rest ++ more) = some (c, n) := by
  obtain ⟨henc, hle⟩ := utf8EncodeChar_of_sequence? h
  have hread := sequence?_utf8EncodeChar henc (rest.drop n ++ more)
  rwa [← List.append_assoc, List.take_append_drop, List.length_take_of_le hle] at hread

/-- A glyph as reading gives it: a code point with its encoding, or a byte read alone. -/
inductive Read : Glyph → Prop
  | char (c : Char) : Read (ofChar c)
  | stray (b : UInt8) (hb : 0x80 ≤ b.toNat) : Read (stray b)

/-- An ASCII byte starts a sequence of its own. -/
theorem sequence?_ascii {b : UInt8} (hb : b.toNat < 0x80) (rest : Bytes) :
    sequence? b rest = some (Char.ofNat b.toNat, 0) := by
  unfold sequence?
  rw [if_pos hb]

theorem read_first (a : UInt8) (rest : Bytes) : (first a rest).1.Read := by
  unfold first
  split
  · next c n h =>
    have henc := (utf8EncodeChar_of_sequence? h).1
    rw [← henc]
    exact Read.char c
  · next h =>
    refine Read.stray a ?_
    -- An ASCII byte is never read as a stray one.
    by_cases ha : a.toNat < 0x80
    · rw [sequence?_ascii ha] at h
      exact absurd h (by simp)
    · omega

end Glyph

/-! ## §3. Whole texts. -/

/-- **Well-formed text is read back, whatever follows.** -/
theorem glyphs_utf8_append (cs : List Char) (rest : Bytes) :
    glyphs (utf8 cs ++ rest) = cs.map Glyph.ofChar ++ glyphs rest := by
  induction cs with
  | nil => rfl
  | cons c cs ih =>
      cases henc : String.utf8EncodeChar c with
      | nil => exact absurd henc String.utf8EncodeChar_ne_nil
      | cons a tail =>
          have hseq := Glyph.sequence?_utf8EncodeChar henc (utf8 cs ++ rest)
          rw [utf8_cons, henc, List.append_assoc, List.cons_append, glyphs_cons, Glyph.first, hseq]
          show ⟨c, a :: (tail ++ (utf8 cs ++ rest)).take tail.length⟩
              :: glyphs ((tail ++ (utf8 cs ++ rest)).drop tail.length) = _
          rw [List.take_left, List.drop_left, ih, ← henc]
          rfl

theorem glyphs_utf8 (cs : List Char) : glyphs (utf8 cs) = cs.map Glyph.ofChar := by
  have h := glyphs_utf8_append cs []
  rwa [List.append_nil, glyphs_nil, List.append_nil] at h

theorem utf8_eq_nil_iff {cs : List Char} : utf8 cs = [] ↔ cs = [] := by
  constructor
  · intro hnil
    have h := glyphs_utf8 cs
    rw [hnil] at h
    exact List.map_eq_nil_iff.mp h.symm
  · intro hnil
    rw [hnil, utf8_nil]

theorem glyphs_utf8EncodeChar_append (c : Char) (rest : Bytes) :
    glyphs (String.utf8EncodeChar c ++ rest) = Glyph.ofChar c :: glyphs rest := by
  have h := glyphs_utf8_append [c] rest
  rwa [utf8_cons, utf8_nil, List.append_nil] at h

theorem glyphs_asciiByte_cons {k : Char} (hk : k.toNat < 0x80) (rest : Bytes) :
    glyphs (asciiByte k :: rest) = Glyph.ofChar k :: glyphs rest := by
  have h := glyphs_utf8EncodeChar_append k rest
  rwa [utf8EncodeChar_ascii hk] at h

/-- What is read is an encoded code point or a stray byte. -/
theorem Glyph.read_of_mem {bs : Bytes} {g : Glyph} (h : g ∈ glyphs bs) : g.Read := by
  match bs with
  | [] => exact absurd h (by simp)
  | a :: rest =>
      rw [glyphs_cons] at h
      rcases List.mem_cons.mp h with rfl | htail
      · exact Glyph.read_first a rest
      · exact Glyph.read_of_mem htail
termination_by bs.length
decreasing_by simp only [List.length_drop, List.length_cons]; omega

/-! ## §4. ASCII bytes. -/

/-- The encoding of a character that is not ASCII has no ASCII byte. -/
theorem utf8EncodeChar_ascii_or (c : Char) :
    c.toNat < 0x80 ∨ ∀ b ∈ String.utf8EncodeChar c, 0x80 ≤ b.toNat := by
  by_cases hc : c.toNat < 0x80
  · exact Or.inl hc
  · refine Or.inr ?_
    have hval : c.val.toNat = c.toNat := rfl
    unfold String.utf8EncodeChar
    simp only [hval]
    rw [if_neg (by omega)]
    -- Every byte is written as a number of at least 0x80 and below 256.
    have hbyte : ∀ n : Nat, 0x80 ≤ n → n < 256 → 0x80 ≤ (UInt8.ofNat n).toNat := by
      intro n hlow hhigh
      rwa [UInt8.toNat_ofNat_of_lt' hhigh]
    repeat' split
    all_goals
      intro b hb
      simp only [List.mem_cons, List.not_mem_nil, or_false] at hb
    · rcases hb with rfl | rfl <;> exact hbyte _ (by omega) (by omega)
    · rcases hb with rfl | rfl | rfl <;> exact hbyte _ (by omega) (by omega)
    · rcases hb with rfl | rfl | rfl | rfl <;> exact hbyte _ (by omega) (by omega)

theorem toNat_asciiByte {k : Char} (hk : k.toNat < 0x80) : (asciiByte k).toNat = k.toNat :=
  UInt8.toNat_ofNat_of_lt' (show _ < 256 by omega)

theorem asciiByte_inj {c k : Char} (hc : c.toNat < 0x80) (hk : k.toNat < 0x80)
    (h : asciiByte c = asciiByte k) : c = k := by
  have hnat : c.toNat = k.toNat := by
    rw [← toNat_asciiByte hc, ← toNat_asciiByte hk, h]
  rw [← Char.ofNat_toNat c, hnat, Char.ofNat_toNat]

namespace Glyph

/-- A glyph that is not read as the replacement character is an encoded code point. -/
theorem Read.eq_ofChar {g : Glyph} (hg : g.Read) (h : g.char ≠ replacement) :
    g = ofChar g.char := by
  cases hg with
  | char c => rfl
  | stray b hb => exact absurd rfl h

/-- A glyph in a class of characters that no stray byte reads as is an encoded code point. -/
theorem Read.bytes_of_class {g : Glyph} (hg : g.Read) {p : Char → Bool}
    (hp : p replacement = false) (h : p g.char = true) : g.bytes = String.utf8EncodeChar g.char := by
  have hne : g.char ≠ replacement := by
    intro hrepl
    rw [hrepl, hp] at h
    exact absurd h (by decide)
  exact congrArg Glyph.bytes (hg.eq_ofChar hne)

theorem Read.bytes_of_ascii {g : Glyph} (hg : g.Read) {k : Char} (h : g.char = k)
    (hk : k.toNat < 0x80) : g.bytes = [asciiByte k] := by
  have hne : g.char ≠ replacement := by
    intro hrepl
    rw [← h, hrepl] at hk
    exact absurd hk (by decide)
  rw [← utf8EncodeChar_ascii hk, ← h]
  exact congrArg Glyph.bytes (hg.eq_ofChar hne)

/-- **An ASCII byte stands for itself.** -/
theorem Read.asciiByte_mem_iff {g : Glyph} (hg : g.Read) {k : Char} (hk : k.toNat < 0x80) :
    asciiByte k ∈ g.bytes ↔ g.char = k := by
  constructor
  · intro hmem
    cases hg with
    | char c =>
        rcases utf8EncodeChar_ascii_or c with hc | hhigh
        · have hbytes : (ofChar c).bytes = [asciiByte c] := utf8EncodeChar_ascii hc
          rw [hbytes, List.mem_singleton] at hmem
          exact (asciiByte_inj hk hc hmem).symm
        · have hlow := hhigh _ hmem
          rw [toNat_asciiByte hk] at hlow
          omega
    | stray b hb =>
        rw [List.mem_singleton.mp hmem |>.symm, toNat_asciiByte hk] at hb
        omega
  · intro hchar
    rw [hg.bytes_of_ascii hchar hk]
    exact List.mem_singleton.mpr rfl

end Glyph

theorem asciiByte_mem_unread_iff {gs : List Glyph} (hgs : ∀ g ∈ gs, g.Read) {k : Char}
    (hk : k.toNat < 0x80) : asciiByte k ∈ unread gs ↔ ∃ g ∈ gs, g.char = k := by
  unfold unread
  rw [List.mem_flatMap]
  constructor
  · rintro ⟨g, hg, hmem⟩
    exact ⟨g, hg, ((hgs g hg).asciiByte_mem_iff hk).mp hmem⟩
  · rintro ⟨g, hg, hchar⟩
    exact ⟨g, hg, ((hgs g hg).asciiByte_mem_iff hk).mpr hchar⟩

theorem char_ne_of_asciiByte_not_mem {bs : Bytes} {k : Char} (hk : k.toNat < 0x80)
    (h : asciiByte k ∉ bs) : ∀ g ∈ glyphs bs, g.char ≠ k := by
  intro g hg hchar
  refine h ?_
  rw [← unread_glyphs bs, asciiByte_mem_unread_iff (fun g => Glyph.read_of_mem) hk]
  exact ⟨g, hg, hchar⟩

/-- A sequence does not reach over an ASCII byte. -/
theorem Glyph.sequence?_append_ascii (a : UInt8) (tail : Bytes) {b : UInt8} (hb : b.toNat < 0x80)
    (rest : Bytes) : sequence? a (tail ++ b :: rest) = sequence? a tail := by
  cases hlong : sequence? a (tail ++ b :: rest) with
  | none =>
      cases hshort : sequence? a tail with
      | none => rfl
      | some cn =>
          obtain ⟨henc, hle⟩ := utf8EncodeChar_of_sequence? hshort
          have hread := sequence?_utf8EncodeChar henc (tail.drop cn.2 ++ b :: rest)
          rw [← List.append_assoc, List.take_append_drop, hlong] at hread
          exact absurd hread (by simp)
  | some cn =>
      obtain ⟨henc, hle⟩ := utf8EncodeChar_of_sequence? hlong
      by_cases hn : cn.2 ≤ tail.length
      · rw [List.take_append_of_le_length hn] at henc
        have hread := sequence?_utf8EncodeChar henc (tail.drop cn.2)
        rw [List.take_append_drop, List.length_take, Nat.min_eq_left hn] at hread
        exact hread.symm
      · -- Otherwise `b` were a byte of the encoding, next to the first one.
        have hmem : b ∈ (tail ++ b :: rest).take cn.2 := by
          rw [List.take_append]
          refine List.mem_append_right _ ?_
          obtain ⟨m, hm⟩ : ∃ m, cn.2 - tail.length = m + 1 := ⟨cn.2 - tail.length - 1, by omega⟩
          rw [hm, List.take_succ_cons]
          exact List.mem_cons_self
        rcases utf8EncodeChar_ascii_or cn.1 with hc | hhigh
        · rw [utf8EncodeChar_ascii hc] at henc
          rw [← (List.cons.inj henc).2] at hmem
          exact absurd hmem (by simp)
        · have hge := hhigh b (by rw [henc]; exact List.mem_cons_of_mem _ hmem)
          omega

/-- **What stands before an ASCII byte is read on its own.** -/
theorem glyphs_append_ascii (bs : Bytes) {b : UInt8} (hb : b.toNat < 0x80) (rest : Bytes) :
    glyphs (bs ++ b :: rest) = glyphs bs ++ glyphs (b :: rest) := by
  -- The recursion is on what the first glyph leaves, which may be shorter by several bytes.
  match bs with
  | [] => rfl
  | a :: tail =>
      have hfirst : Glyph.first a (tail ++ b :: rest) = Glyph.first a tail := by
        unfold Glyph.first
        rw [Glyph.sequence?_append_ascii a tail hb rest]
        split
        · next c n h =>
          rw [List.take_append_of_le_length (Glyph.utf8EncodeChar_of_sequence? h).2]
        · rfl
      have hle : (Glyph.first a tail).2 ≤ tail.length := by
        unfold Glyph.first
        split
        · next c n h => exact (Glyph.utf8EncodeChar_of_sequence? h).2
        · exact Nat.zero_le _
      rw [List.cons_append, glyphs_cons, glyphs_cons, hfirst,
          List.drop_append_of_le_length hle, glyphs_append_ascii (tail.drop _) hb rest]
      rfl
termination_by bs.length
decreasing_by simp only [List.length_drop, List.length_cons]; omega

/-- What is left after some glyphs is read the same on its own. -/
theorem glyphs_eq_append {bs : Bytes} {gs more : List Glyph} (h : glyphs bs = gs ++ more) :
    bs = unread gs ++ unread more ∧ glyphs (unread more) = more := by
  refine ⟨?_, ?_⟩
  · rw [← unread_append, ← h, unread_glyphs]
  · induction gs generalizing bs with
    | nil =>
        have hmore : glyphs bs = more := h
        rw [← hmore, unread_glyphs]
    | cons g gs ih =>
        cases bs with
        | nil => exact absurd h (by simp)
        | cons a rest =>
            rw [glyphs_cons] at h
            exact ih (List.cons.inj h).2

/-- **The beginning of a text is read the same on its own**, if it ends where a glyph ends. -/
theorem glyphs_unread_of_append {bs : Bytes} {gs more : List Glyph} (h : glyphs bs = gs ++ more) :
    glyphs (unread gs) = gs := by
  induction gs generalizing bs with
  | nil => rfl
  | cons g gs ih =>
      cases bs with
      | nil => exact absurd h (by simp)
      | cons a rest =>
          rw [glyphs_cons] at h
          obtain ⟨hfirst, hrest⟩ := List.cons.inj h
          have hgs := ih hrest
          unfold Glyph.first at hfirst hrest
          cases hseq : Glyph.sequence? a rest with
          | some cn =>
              obtain ⟨c, n⟩ := cn
              rw [hseq] at hfirst
              obtain rfl : Glyph.ofChar c = g := by
                rw [← hfirst, Glyph.ofChar, (Glyph.utf8EncodeChar_of_sequence? hseq).1]
              exact (glyphs_utf8EncodeChar_append c (unread gs)).trans (by rw [hgs])
          | none =>
              rw [hseq] at hfirst hrest
              have hbytes : rest = unread gs ++ unread more := (glyphs_eq_append hrest).1
              obtain rfl : Glyph.stray a = g := hfirst
              -- a byte that is stray in the longer text starts nothing in the shorter one
              have hnone : Glyph.sequence? a (unread gs) = none := by
                rw [Option.eq_none_iff_forall_ne_some]
                intro cn hcn
                have hlong := Glyph.sequence?_append hcn (unread more)
                rw [← hbytes, hseq] at hlong
                exact absurd hlong (by simp)
              show glyphs (a :: unread gs) = _
              rw [glyphs_cons, Glyph.first, hnone]
              exact congrArg _ hgs

theorem glyphs_eq_cons {bs : Bytes} {g : Glyph} {gs : List Glyph} (h : glyphs bs = g :: gs) :
    g.Read ∧ ∃ rest, bs = g.bytes ++ rest ∧ gs = glyphs rest := by
  have hmem : g ∈ glyphs bs := by
    rw [h]
    exact List.mem_cons_self
  obtain ⟨hbs, hgs⟩ := glyphs_eq_append (show glyphs bs = [g] ++ gs from h)
  rw [unread_cons, unread_nil, List.append_nil] at hbs
  exact ⟨Glyph.read_of_mem hmem, unread gs, hbs, hgs.symm⟩

end Quartet
