/-
  Quartet.Proofs.Assembly.Reassembly
  ──────────────────────────────────
  **A LISTING ASSEMBLES TO THE CODE IT LISTS.**

  The listing, the parser and the encoder each walk along the shape of an opcode on their own.  They
  meet in records: a record whose operands are those of its shape has one slot, and the listing of
  that slot is the printed record.

    • `CanonicalCode`, `Record.Canonical` — code and records that say nothing but their operands,
    • `Listing.textsFrom_slots` — code is listed slot by slot,
    • `Record.Canonical.flatten_slotPieces` — the listing of a slot is its record in print,
    • `exists_program_of_canonicalCode` — canonical code is the slots of canonical records,
    • `reassemble_listing` — hence code is listed and assembled back, and so are records.
-/
import Mathlib.Data.List.Forall2
import Quartet.Listing
import Quartet.Proofs.Assembly.Simulation
import Quartet.Proofs.Assembly.Unlabelled
import Quartet.Proofs.Source.Printing

namespace Quartet

/-! ## §1. Listing one instruction after the other. -/

namespace Listing

theorem next_le_of_at? {code : Bytes} {pc : Nat} {pieces : List Bytes} {next : Nat}
    (h : at? code pc = some (pieces, next)) : code.length - next < code.length - pc := by
  unfold at? at h
  split at h
  · next hin =>
    obtain ⟨-, rfl⟩ := Prod.mk.inj (Option.some.inj h)
    unfold slotSize
    omega
  · exact absurd h nofun

/-- The instructions from an address on as texts, each found where the one before it ends. -/
def textsFrom (code : Bytes) (pc : Nat) : List Bytes :=
  match _h : at? code pc with
  | none => []
  | some (pieces, next) => pieces.flatten :: textsFrom code next
termination_by code.length - pc
decreasing_by exact next_le_of_at? _h

theorem textsFrom_of_none {code : Bytes} {pc : Nat} (h : at? code pc = none) :
    textsFrom code pc = [] := by
  rw [textsFrom]
  split
  · rfl
  · next hsome =>
    rw [h] at hsome
    exact absurd hsome (by simp)

theorem textsFrom_of_some {code : Bytes} {pc next : Nat} {pieces : List Bytes}
    (h : at? code pc = some (pieces, next)) :
    textsFrom code pc = pieces.flatten :: textsFrom code next := by
  rw [textsFrom]
  split
  · next hnone =>
    rw [h] at hnone
    exact absurd hnone (by simp)
  · next hsome =>
    rw [h] at hsome
    obtain ⟨rfl, rfl⟩ := Prod.mk.inj (Option.some.inj hsome)
    rfl

/-- All instructions of code as texts. -/
def texts (code : Bytes) : List Bytes := textsFrom code 0

/-- What follows a whole slot does not show in its listing. -/
theorem slotPieces_append {s : Bytes} (hs : s.length = 4) (rest : Bytes) :
    slotPieces (s ++ rest) = slotPieces s := by
  match s, hs with
  | [op, a, b, c], _ => rfl

/-- **Code that is a row of slots is listed slot by slot.** -/
theorem textsFrom_slots (slots : List Bytes) :
    ∀ before : Bytes, (∀ s ∈ slots, s.length = 4) →
      textsFrom (before ++ slots.flatten) before.length
        = slots.map fun s => (slotPieces s).flatten := by
  induction slots with
  | nil =>
      intro before _
      have hnone : at? (before ++ [].flatten) before.length = none := by
        unfold at?
        rw [if_neg]
        simp
      rw [textsFrom_of_none hnone]
      rfl
  | cons s slots ih =>
      intro before hlength
      have hs : s.length = 4 := hlength s List.mem_cons_self
      have hat : at? (before ++ (s :: slots).flatten) before.length
          = some (slotPieces s, before.length + 4) := by
        unfold at?
        rw [if_pos]
        · have hdrop : (before ++ (s :: slots).flatten).drop (before.length : Int).toNat
              = s ++ slots.flatten := by simp
          rw [hdrop, slotPieces_append hs]
          have hnext : min ((before.length : Int).toNat + slotSize)
              (before ++ (s :: slots).flatten).length = before.length + 4 := by
            simp only [List.length_append, List.flatten_cons, hs, slotSize]
            omega
          rw [hnext]
        · simp only [List.length_append, List.flatten_cons, hs]
          omega
      have hrest := ih (before ++ s) fun t ht => hlength t (List.mem_cons_of_mem _ ht)
      rw [List.append_assoc, List.length_append, hs] at hrest
      rw [textsFrom_of_some hat]
      exact congrArg _ hrest

end Listing

/-! ## §2. Canonical code and canonical records. -/

/-- Operand bytes that say nothing but what a shape asks for: the registers are there, and the bytes
that the shape does not use are zero. -/
def CanonicalOperands : List ArgKind → Bytes → Prop
  | [], rest => ∀ b ∈ rest, b = 0
  | .register :: shape, b :: rest => b.toNat < registerCount ∧ CanonicalOperands shape rest
  | .immediate :: shape, _ :: _ :: rest => CanonicalOperands shape rest
  | _ :: _, _ => False

/-- A slot whose opcode is mapped and whose operand bytes are canonical. -/
def CanonicalSlot (s : Bytes) : Prop :=
  ∃ byte op a b c, s = [byte, a, b, c] ∧ Opcode.ofByte? byte = some op ∧
    CanonicalOperands op.shape [a, b, c]

/-- Code made of canonical slots. -/
def CanonicalCode (code : Bytes) : Prop :=
  ∃ slots : List Bytes, (∀ s ∈ slots, CanonicalSlot s) ∧ code = slots.flatten

/-- Operands that fit a slot without loss: registers of the machine and numbers of sixteen bits. -/
def Token.Exact : Token → Prop
  | .register index => index.toNat < registerCount
  | .immediate n => 0 ≤ n.toInt ∧ n.toInt ≤ 65535
  | _ => False

/-- An instruction without label whose operation is mapped, whose operands are those of its shape, and
which loses nothing in its slot. -/
structure Record.Canonical (r : Record) : Prop where
  /-- It has no label. -/
  label : r.label = none
  /-- Its operation is mapped and its operands are those of its shape. -/
  fits : r.Fits
  /-- Its registers are there, and its numbers have sixteen bits. -/
  exact : ∀ t ∈ r.operands, t.Exact

/-- This does not depend on where the record stands. -/
theorem Program.Same.canonical {p q : Program} (h : p.Same q) (hq : ∀ r ∈ q, r.Canonical) :
    ∀ r ∈ p, r.Canonical := by
  intro r hr
  have hmem : r.content ∈ q.map Record.content := by
    rw [← show p.map Record.content = q.map Record.content from h]
    exact List.mem_map_of_mem hr
  obtain ⟨s, hs, hcontent⟩ := List.mem_map.mp hmem
  obtain ⟨hlabel, hhead, hoperands⟩ := Record.eq_of_content hcontent
  obtain ⟨slabel, sfits, sexact⟩ := hq s hs
  unfold Record.Fits Record.opcode? at sfits
  rw [hhead, hoperands] at sfits
  rw [hlabel] at slabel
  rw [hoperands] at sexact
  exact ⟨slabel, sfits, sexact⟩

/-! ## §3. Operands, as bytes and in print. -/

/-- A number of sixteen bits from its two bytes. -/
theorem toInt_word (high low : UInt8) :
    (Machine.word high low).toInt = high.toNat * 256 + low.toNat := by
  have hhigh := high.toNat_lt
  have hlow := low.toNat_lt
  unfold Machine.word
  rw [Int32.toInt_ofNat_of_lt (by omega)]
  omega

/-- The two bytes of a number that was put together from them. -/
theorem operandImage_word (high low : UInt8) :
    Program.operandImage [] (.immediate (Machine.word high low)) = [high, low] := by
  have hhigh := high.toNat_lt
  have hlow := low.toNat_lt
  have hfirst : ((Machine.word high low).toInt / 256 % 256).toNat = high.toNat := by
    rw [toInt_word]
    omega
  have hsecond : ((Machine.word high low).toInt % 256).toNat = low.toNat := by
    rw [toInt_word]
    omega
  show [UInt8.ofNat _, UInt8.ofNat _] = _
  rw [hfirst, hsecond, UInt8.ofNat_toNat, UInt8.ofNat_toNat]

/-- A number of sixteen bits in print, from the bytes it is encoded as. -/
theorem decimalNat_operandBytes {n : Int} (hlow : 0 ≤ n) (hhigh : n ≤ 65535) :
    decimalNat ((UInt8.ofNat (n / 256 % 256).toNat).toNat * 256
      + (UInt8.ofNat (n % 256).toNat).toNat) = decimal n := by
  have hfirst : (UInt8.ofNat (n / 256 % 256).toNat).toNat = (n / 256 % 256).toNat :=
    UInt8.toNat_ofNat_of_lt' (show (n / 256 % 256).toNat < 256 by omega)
  have hsecond : (UInt8.ofNat (n % 256).toNat).toNat = (n % 256).toNat :=
    UInt8.toNat_ofNat_of_lt' (show (n % 256).toNat < 256 by omega)
  have hsum : (n / 256 % 256).toNat * 256 + (n % 256).toNat = n.toNat := by omega
  rw [hfirst, hsecond, hsum]
  show decimal (Int.ofNat n.toNat) = _
  rw [Int.ofNat_eq_natCast, Int.toNat_of_nonneg hlow]

/-- **The listing of operand bytes is the operands in print**, whatever follows them. -/
theorem flatten_operandPieces {ts : List Token} {shape : List ArgKind}
    (h : List.Forall₂ Token.HasKind ts shape) (hexact : ∀ t ∈ ts, t.Exact) (rest : Bytes) :
    (Listing.operandPieces shape (ts.flatMap (Program.operandImage []) ++ rest)).flatten
      = Token.spaced ts := by
  induction h with
  | nil => rfl
  | @cons t kind ts shape hkind _ ih =>
      have htail := ih fun u hu => hexact u (List.mem_cons_of_mem _ hu)
      cases hkind with
      | register index =>
          show (ascii " $" ++ decimalNat index.toNat)
            ++ (Listing.operandPieces shape (ts.flatMap _ ++ rest)).flatten = _
          rw [htail]
          rfl
      | immediate n =>
          obtain ⟨hlow, hhigh⟩ : 0 ≤ n.toInt ∧ n.toInt ≤ 65535 := hexact _ List.mem_cons_self
          show (ascii " #" ++ decimalNat _)
            ++ (Listing.operandPieces shape (ts.flatMap _ ++ rest)).flatten = _
          rw [htail, decimalNat_operandBytes hlow hhigh]
          rfl

/-- **Canonical operand bytes are those of operands**, filled up with zeros. -/
theorem exists_operands {shape : List ArgKind} {bytes : Bytes} (h : CanonicalOperands shape bytes) :
    ∃ ts n, List.Forall₂ Token.HasKind ts shape ∧ (∀ t ∈ ts, t.Exact) ∧
      bytes = ts.flatMap (Program.operandImage []) ++ List.replicate n 0 := by
  induction shape, bytes using CanonicalOperands.induct with
  | case1 rest =>
      refine ⟨[], rest.length, .nil, by simp, ?_⟩
      exact List.eq_replicate_of_mem h
  | case2 shape b rest ih =>
      obtain ⟨hb, hrest⟩ := h
      obtain ⟨ts, n, hkinds, hexact, rfl⟩ := ih hrest
      refine ⟨.register b :: ts, n, .cons (.register b) hkinds, ?_, rfl⟩
      exact List.forall_mem_cons.mpr ⟨hb, hexact⟩
  | case3 shape high low rest ih =>
      obtain ⟨ts, n, hkinds, hexact, rfl⟩ := ih h
      have hword := toInt_word high low
      have hhigh := high.toNat_lt
      have hlow := low.toNat_lt
      refine ⟨.immediate (Machine.word high low) :: ts, n, .cons (.immediate _) hkinds, ?_, ?_⟩
      · refine List.forall_mem_cons.mpr ⟨?_, hexact⟩
        show 0 ≤ (Machine.word high low).toInt ∧ (Machine.word high low).toInt ≤ 65535
        omega
      · rw [List.flatMap_cons, operandImage_word]
        rfl
  | case4 kind shape bytes hregister himmediate => exact absurd h (by simp [CanonicalOperands])

/-! ## §4. One record and its slot. -/

/-- The bytes that a kind of operand takes in a slot. -/
def ArgKind.width : ArgKind → Nat
  | .register => 1
  | .immediate => 2

/-- The bytes that operands of a shape take together. -/
def ArgKind.widths : List ArgKind → Nat
  | [] => 0
  | kind :: shape => kind.width + widths shape

theorem widths_eq_of_hasKind {ts : List Token} {shape : List ArgKind}
    (h : List.Forall₂ Token.HasKind ts shape) : Token.widths ts = ArgKind.widths shape := by
  induction h with
  | nil => rfl
  | @cons t kind ts shape hkind _ ih =>
      show t.width + Token.widths ts = kind.width + ArgKind.widths shape
      rw [ih]
      cases hkind <;> rfl

theorem length_flatMap_operandImage {ts : List Token} {shape : List ArgKind}
    (h : List.Forall₂ Token.HasKind ts shape) :
    (ts.flatMap (Program.operandImage [])).length = ArgKind.widths shape := by
  induction h with
  | nil => rfl
  | @cons t kind ts shape hkind _ ih =>
      rw [List.flatMap_cons, List.length_append, ih]
      cases hkind <;> rfl

/-- The operands of every opcode fit into a slot, and there are at most three. -/
theorem Opcode.widths_shape_le (op : Opcode) : ArgKind.widths op.shape ≤ 3 := by
  cases op <;> decide

theorem Opcode.length_shape_le (op : Opcode) : op.shape.length ≤ 3 := by
  cases op <;> decide

/-- A canonical slot is that of a canonical record. -/
theorem exists_record {s : Bytes} (h : CanonicalSlot s) :
    ∃ r : Record, r.Canonical ∧ Program.slotImage [] r = s := by
  obtain ⟨byte, op, a, b, c, rfl, hop, hoperands⟩ := h
  obtain ⟨ts, n, hkinds, hexact, heq⟩ := exists_operands hoperands
  refine ⟨{ head := .op byte, operands := ts }, ⟨rfl, ⟨op, hop, hkinds⟩, hexact⟩, ?_⟩
  -- the zeros are as many as the operands leave room for
  have hzeros : 3 - (ts.flatMap (Program.operandImage [])).length = n := by
    have hlength := congrArg List.length heq
    rw [List.length_append, List.length_replicate] at hlength
    have hthree : [a, b, c].length = 3 := rfl
    omega
  rw [slotImage_eq_cons rfl]
  unfold Program.argumentBytes
  rw [hzeros, ← heq]

namespace Record.Canonical

variable {r : Record} (h : r.Canonical)
include h

/-- Its head and its operands. -/
theorem exists_opcode : ∃ byte op, r.head = .op byte ∧ Opcode.ofByte? byte = some op ∧
    List.Forall₂ Token.HasKind r.operands op.shape := by
  obtain ⟨op, hop, hkinds⟩ := h.fits
  unfold Record.opcode? at hop
  split at hop
  · next byte hhead => exact ⟨byte, op, hhead, hop, hkinds⟩
  · exact absurd hop nofun

theorem isOperation : r.isOperation := by
  obtain ⟨byte, op, hhead, -, -⟩ := h.exists_opcode
  unfold Record.isOperation
  rw [hhead]

/-- It can be printed, -/
theorem wellFormed : r.WellFormed := by
  obtain ⟨byte, op, hhead, hop, hkinds⟩ := h.exists_opcode
  have hoperand : ∀ t ∈ r.operands, t.isOperand = true ∧ t.WellFormed := by
    intro t ht
    have hexact := h.exact t ht
    cases t with
    | register index => exact ⟨rfl, trivial⟩
    | immediate n => exact ⟨rfl, trivial⟩
    | _ => exact absurd hexact id
  refine ⟨⟨?_, ?_, fun t ht => (hoperand t ht).1⟩, ?_⟩
  · rw [hhead]
    rfl
  · rw [hkinds.length_eq]
    exact op.length_shape_le
  · unfold Record.tokens
    rw [h.label, hhead]
    exact List.forall_mem_cons.mpr ⟨⟨op, hop⟩, fun t ht => (hoperand t ht).2⟩

/-- it stands alone, -/
theorem selfContained : r.SelfContained := by
  obtain ⟨byte, op, hhead, hop, hkinds⟩ := h.exists_opcode
  refine ⟨h.label, Or.inl h.isOperation, ?_, ?_⟩
  · intro hdirective
    unfold Record.isDirective at hdirective
    rw [hhead] at hdirective
    exact absurd hdirective nofun
  · intro _
    constructor
    · intro t ht
      have hexact := h.exact t ht
      cases t with
      | register index => exact hexact
      | immediate n => trivial
      | _ => exact absurd hexact id
    · rw [widths_eq_of_hasKind hkinds]
      exact op.widths_shape_le

/-- and its slot is a whole one -/
theorem length_slotImage : (Program.slotImage [] r).length = 4 := by
  obtain ⟨byte, op, hhead, hop, hkinds⟩ := h.exists_opcode
  have hlength := length_flatMap_operandImage hkinds
  have hroom := op.widths_shape_le
  rw [slotImage_eq_cons hhead]
  unfold Program.argumentBytes
  rw [List.length_cons, List.length_append, List.length_replicate]
  omega

/-- **whose listing is the record in print.** -/
theorem flatten_slotPieces : (Listing.slotPieces (Program.slotImage [] r)).flatten = r.text := by
  obtain ⟨byte, op, hhead, hop, hkinds⟩ := h.exists_opcode
  have hfour := h.length_slotImage
  rw [slotImage_eq_cons hhead] at hfour ⊢
  have hthree : (Program.argumentBytes [] r.operands).length = 3 := by
    rw [List.length_cons] at hfour
    omega
  have hpieces : ∀ bytes : Bytes, bytes.length = 3 → (Listing.slotPieces (byte :: bytes)).flatten
      = Opcode.nameOfByte byte ++ (Listing.operandPieces op.shape bytes).flatten := by
    intro bytes hbytes
    obtain ⟨a, b, c, rfl⟩ := List.length_eq_three.mp hbytes
    show Opcode.nameOfByte byte ++ (Listing.operandPieces (Opcode.shapeOfByte byte) _).flatten = _
    unfold Opcode.shapeOfByte
    rw [hop]
  rw [hpieces _ hthree]
  unfold Program.argumentBytes
  rw [flatten_operandPieces hkinds h.exact]
  unfold Record.text
  rw [h.label, hhead]
  rfl

end Record.Canonical

/-! ## §5. Programs. -/

/-- Canonical code is the slots of canonical records. -/
theorem exists_program_of_canonicalCode {code : Bytes} (h : CanonicalCode code) :
    ∃ p : Program, (∀ r ∈ p, r.Canonical) ∧ p.flatMap (Program.slotImage []) = code := by
  obtain ⟨slots, hslots, rfl⟩ := h
  induction slots with
  | nil => exact ⟨[], by simp, rfl⟩
  | cons s slots ih =>
      obtain ⟨r, hr, hslot⟩ := exists_record (hslots s List.mem_cons_self)
      obtain ⟨p, hp, hcode⟩ := ih fun t ht => hslots t (List.mem_cons_of_mem _ ht)
      refine ⟨r :: p, List.forall_mem_cons.mpr ⟨hr, hp⟩, ?_⟩
      rw [List.flatMap_cons, hslot, hcode]
      rfl

namespace Layout

/-- An instruction gives no reason for a warning. -/
theorem warnings_add_of_isOperation {r : Record} (h : r.isOperation) (l : Layout) :
    (l.add r).warnings = l.warnings := by
  unfold Record.isOperation at h
  rw [add_eq]
  split at h
  · next byte hhead =>
    rw [hhead]
    show (l.bindLabel r .code l.codeSize).warnings = _
    rw [bindLabel_eq]
    split
    · rfl
    · split
      · rfl
      · rw [bind_eq]
        split
        · rfl
        · rfl
  · exact absurd h nofun

theorem warnings_foldl_add {p : Program} (h : ∀ r ∈ p, r.isOperation) :
    ∀ l : Layout, (p.foldl add l).warnings = l.warnings := by
  induction p with
  | nil => intro l; rfl
  | cons r p ih =>
      intro l
      rw [List.foldl_cons, ih fun s hs => h s (List.mem_cons_of_mem _ hs)]
      exact warnings_add_of_isOperation (h r List.mem_cons_self) l

end Layout

namespace Program

theorem assemble_warnings (p : Program) : p.assemble.warnings = (Layout.ofProgram p).warnings := by
  unfold assemble
  simp only
  split
  · rfl
  · split <;> rfl

variable {p : Program} (hp : ∀ r ∈ p, r.Canonical)
include hp

/-- Canonical records are assembled without complaint to their slots, -/
theorem assemble_of_canonical :
    p.assemble.result = .ok ⟨[], p.flatMap (slotImage [])⟩ ∧ p.assemble.warnings = [] := by
  have hall : ∀ r ∈ p, r.SelfContained := fun r hr => (hp r hr).selfContained
  constructor
  · rw [assemble_eq_ok_iff_selfContained (fun r hr => (hall r hr).label)
      (fun r hr => (hall r hr).head)]
    exact ⟨hall, rfl⟩
  · rw [assemble_warnings]
    exact Layout.warnings_foldl_add (fun r hr => (hp r hr).isOperation) .start

/-- the listing of these is the records in print, -/
theorem texts_of_canonical :
    Listing.texts (p.flatMap (slotImage [])) = p.map Record.text := by
  have hslots : ∀ s ∈ p.map (slotImage []), s.length = 4 := by
    intro s hs
    obtain ⟨r, hr, rfl⟩ := List.mem_map.mp hs
    exact (hp r hr).length_slotImage
  have htexts := Listing.textsFrom_slots (p.map (slotImage [])) [] hslots
  rw [List.nil_append, ← List.flatMap_def, List.map_map] at htexts
  refine htexts.trans (List.map_congr_left ?_)
  intro r hr
  exact (hp r hr).flatten_slotPieces

/-- **and it is parsed back to them.** -/
theorem parse_of_canonical (file : Bytes) :
    ∃ q, parse file (joinLines (Listing.texts (p.flatMap (slotImage [])))) = .ok q ∧ q.Same p := by
  rw [texts_of_canonical hp]
  exact parse_of_writes (writes_text fun r hr => (hp r hr).wellFormed) file

end Program

/-- **Listing and assembling are inverse on canonical code.**  The listed instructions of canonical
code, one to a line, are assembled without errors and warnings to exactly this code and no data.
Canonical records are assembled, and the listed instructions of their code are parsed to the same
records. -/
theorem reassemble_listing :
    (∀ code, CanonicalCode code → ∀ (a : Assembler) (file : Bytes),
      (a.assemble file ⟨joinLines (Listing.texts code), none⟩).result = .ok ⟨[], code⟩ ∧
      (a.assemble file ⟨joinLines (Listing.texts code), none⟩).assembler.warnings = []) ∧
    (∀ p : Program, (∀ r ∈ p, r.Canonical) → ∃ img, p.assemble.result = .ok img ∧
      ∀ file, ∃ q, Program.parse file (joinLines (Listing.texts img.code)) = .ok q ∧
        q.map (fun r => (r.head, r.operands)) = p.map fun r => (r.head, r.operands)) := by
  constructor
  · intro code hcode a file
    obtain ⟨p, hp, rfl⟩ := exists_program_of_canonicalCode hcode
    obtain ⟨q, hparse, hsame⟩ := Program.parse_of_canonical hp file
    -- the records that are parsed stand at other places, which does not show in their slots
    obtain ⟨hok, hwarnings⟩ := Program.assemble_of_canonical (hsame.canonical hp)
    rw [hsame.flatMap_slotImage] at hok
    unfold Assembler.assemble
    simp only [hparse, hok, hwarnings]
    exact ⟨rfl, trivial⟩
  · intro p hp
    refine ⟨_, (Program.assemble_of_canonical hp).1, ?_⟩
    intro file
    obtain ⟨q, hparse, hsame⟩ := Program.parse_of_canonical hp file
    refine ⟨q, hparse, ?_⟩
    have hcontent := congrArg (List.map Prod.snd) hsame
    rwa [List.map_map, List.map_map] at hcontent

/-- The last register with the largest number, the first with the smallest, three registers, and a
slot without operands. -/
def reassemblyCode : Bytes := [1, 31, 255, 255, 1, 0, 0, 0, 5, 1, 2, 31, 0, 0, 0, 0]

/-- The records of these slots. -/
def reassemblyRecords : Program :=
  [{ head := .op 1, operands := [.register 31, .immediate 65535] },
    { head := .op 1, operands := [.register 0, .immediate 0] },
    { head := .op 5, operands := [.register 1, .register 2, .register 31] },
    { head := .op 0 }]

theorem reassemble_listing_sample :
    Listing.texts reassemblyCode =
      [ascii "load $31 #65535", ascii "load $0 #0", ascii "div $1 $2 $31", ascii "hlt"] ∧
    CanonicalCode reassemblyCode ∧
    (assemble [] ⟨joinLines (Listing.texts reassemblyCode), none⟩).result =
      .ok ⟨[], reassemblyCode⟩ ∧
    (∀ r ∈ reassemblyRecords, r.Canonical) ∧
    ∃ img, reassemblyRecords.assemble.result = .ok img ∧
      ∃ q, Program.parse [] (joinLines (Listing.texts img.code)) = .ok q ∧
        q.map (fun r => (r.head, r.operands)) =
          reassemblyRecords.map fun r => (r.head, r.operands) := by
  have hcode : CanonicalCode reassemblyCode := by
    refine ⟨[[1, 31, 255, 255], [1, 0, 0, 0], [5, 1, 2, 31], [0, 0, 0, 0]], ?_, rfl⟩
    simp only [List.forall_mem_cons]
    exact ⟨⟨1, .load, 31, 255, 255, rfl, rfl, by simp [CanonicalOperands, Opcode.shape, registerCount]⟩,
      ⟨1, .load, 0, 0, 0, rfl, rfl, by simp [CanonicalOperands, Opcode.shape, registerCount]⟩,
      ⟨5, .div, 1, 2, 31, rfl, rfl, by simp [CanonicalOperands, Opcode.shape, registerCount]⟩,
      ⟨0, .hlt, 0, 0, 0, rfl, rfl, by simp [CanonicalOperands, Opcode.shape]⟩, by simp⟩
  have hrecords : ∀ r ∈ reassemblyRecords, r.Canonical := by
    simp only [reassemblyRecords, List.forall_mem_cons]
    refine ⟨⟨rfl, ⟨.load, rfl, .cons (.register 31) (.cons (.immediate _) .nil)⟩, ?_⟩,
      ⟨rfl, ⟨.load, rfl, .cons (.register 0) (.cons (.immediate _) .nil)⟩, ?_⟩,
      ⟨rfl, ⟨.div, rfl, .cons (.register 1) (.cons (.register 2) (.cons (.register 31) .nil))⟩, ?_⟩,
      ⟨rfl, ⟨.hlt, rfl, .nil⟩, by simp⟩, by simp⟩
    all_goals
      simp only [List.forall_mem_cons, List.not_mem_nil, false_implies, implies_true, and_true,
        Token.Exact]
      decide
  obtain ⟨hlisted, hwritten⟩ := reassemble_listing
  obtain ⟨img, himg, hparse⟩ := hwritten _ hrecords
  exact ⟨by decide +kernel, hcode, (hlisted _ hcode {} []).1, hrecords, img, himg, hparse []⟩

end Quartet
