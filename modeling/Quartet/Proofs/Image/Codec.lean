/-
  Quartet.Proofs.Image.Codec
  ──────────────────────────
  **IMAGES ARE READ BACK AS THEY WERE WRITTEN.**

  The bytes of an image do not say where its data end, so an image is read with the length of its
  data at hand.  Which bytes can be read with which length is said by `Image.Holds`, without the
  order in which reading checks it:

    • `Image.decode_eq_ok_iff` — these bytes are read, and no others,
    • `Image.holds_encode_iff` — among them are the bytes of an image exactly if the image is
      `Image.Storable`: it has at most 256 bytes of data and whole slots of code,
    • `Image.encode_of_decode` — writing what was read clears the filling of the header,
    • `Program.storable_of_assemble` — an assembled image is storable: no record lets the data grow
      beyond their bound, and every instruction is encoded in four bytes.
-/
import Quartet.CommandLine.Run
import Quartet.Proofs.Assembly.Addresses
import Quartet.Proofs.Files.Writing

namespace Quartet

namespace Image

variable {bs : Bytes} {n : Int} {img : Image}

/-! ## §1. Bytes that hold an image. -/

/-- The images that survive being written: their data have offsets of one byte and their code is
made of whole slots. -/
def Storable (img : Image) : Prop := img.data.length ≤ 256 ∧ 4 ∣ img.code.length

instance (img : Image) : Decidable img.Storable :=
  inferInstanceAs (Decidable (_ ∧ _))

/-- Bytes that hold an image with `n` bytes of data. -/
structure Holds (bs : Bytes) (n : Int) : Prop where
  /-- There is a whole header. -/
  room : 64 ≤ bs.length
  /-- It starts with the mark. -/
  mark : ascii "-21-" <+: bs
  /-- The length of the data is that of some data. -/
  nonneg : 0 ≤ n
  /-- It is within the bound. -/
  bounded : n ≤ 256
  /-- The data are all there. -/
  within : n ≤ bs.length - 64
  /-- The rest is whole slots. -/
  slots : 4 ∣ (bs.length : Int) - 64 - n

/-- Bytes with the filling of the header, which follows the mark, set to zero. -/
def clearFilling (bs : Bytes) : Bytes := bs.mapIdx fun i b => if 4 ≤ i ∧ i < 64 then 0 else b

theorem hasMagic_iff : hasMagic bs = true ↔ ascii "-21-" <+: bs :=
  List.isPrefixOf_iff_prefix

/-- The conditions in the order in which reading checks them. -/
theorem holds_iff_checks :
    Holds bs n ↔
      ¬(bs.length < headerSize ∨ !hasMagic bs) ∧ ¬(n < 0 ∨ (maxDataSize : Int) < n) ∧
        ¬((bs.drop headerSize).length : Int) < n ∧
        ((bs.drop headerSize).length - n) % slotSize = 0 := by
  have hmark : (!hasMagic bs) = true ↔ ¬ascii "-21-" <+: bs := by
    rw [← hasMagic_iff]
    simp
  rw [hmark, List.length_drop]
  unfold headerSize maxDataSize slotSize
  constructor
  · intro h
    have := h.room
    have := h.nonneg
    have := h.bounded
    have := h.within
    have := h.slots
    refine ⟨?_, by omega, by omega, by omega⟩
    rintro (hshort | hmissing)
    · omega
    · exact hmissing h.mark
  · rintro ⟨hheader, hsize, hwithin, hslots⟩
    have hroom : 64 ≤ bs.length := Nat.le_of_not_lt fun hshort => hheader (Or.inl hshort)
    exact ⟨hroom, Decidable.of_not_not fun hmissing => hheader (Or.inr hmissing), by omega,
      by omega, by omega, by omega⟩

/-- **Reading succeeds on the bytes that hold an image and on no others**, and takes what follows the
header apart where it was told to. -/
theorem decode_eq_ok_iff :
    decode bs n = .ok img ↔
      Holds bs n ∧ img = ⟨(bs.drop 64).take n.toNat, (bs.drop 64).drop n.toNat⟩ := by
  rw [holds_iff_checks]
  unfold decode
  by_cases hheader : bs.length < headerSize ∨ !hasMagic bs
  · rw [if_pos hheader]
    exact iff_of_false nofun fun h => h.1.1 hheader
  rw [if_neg hheader]
  by_cases hsize : n < 0 ∨ (maxDataSize : Int) < n
  · rw [if_pos hsize]
    exact iff_of_false nofun fun h => h.1.2.1 hsize
  rw [if_neg hsize]
  by_cases hwithin : ((bs.drop headerSize).length : Int) < n
  · rw [if_pos hwithin]
    exact iff_of_false nofun fun h => h.1.2.2.1 hwithin
  rw [if_neg hwithin]
  by_cases hslots : ((bs.drop headerSize).length - n) % slotSize = 0
  · rw [if_neg (fun h => h hslots)]
    constructor
    · intro h
      exact ⟨⟨hheader, hsize, hwithin, hslots⟩, (Except.ok.inj h).symm⟩
    · rintro ⟨-, rfl⟩
      rfl
  · rw [if_pos hslots]
    exact iff_of_false nofun fun h => hslots h.1.2.2.2

theorem exists_decode_iff : (∃ img, decode bs n = .ok img) ↔ Holds bs n := by
  constructor
  · rintro ⟨img, h⟩
    exact (decode_eq_ok_iff.mp h).1
  · intro h
    exact ⟨_, decode_eq_ok_iff.mpr ⟨h, rfl⟩⟩

/-! ## §2. Writing, then reading. -/

theorem length_encode (img : Image) :
    img.encode.length = 64 + img.data.length + img.code.length := by
  unfold encode
  rw [List.length_append, List.length_append, length_header]
  rfl

theorem drop_encode (img : Image) : img.encode.drop 64 = img.data ++ img.code := by
  unfold encode
  rw [List.append_assoc]
  exact List.drop_left' length_header

theorem mark_encode (img : Image) : ascii "-21-" <+: img.encode := by
  unfold encode header
  rw [List.append_assoc, List.append_assoc]
  exact List.prefix_append magic _

/-- **An image can be read from its own bytes exactly if it is storable.** -/
theorem holds_encode_iff (img : Image) : Holds img.encode img.data.length ↔ img.Storable := by
  have hlength := length_encode img
  constructor
  · intro h
    have hbounded := h.bounded
    have hslots := h.slots
    exact ⟨by omega, by omega⟩
  · rintro ⟨hdata, hcode⟩
    exact ⟨by omega, mark_encode img, by omega, by omega, by omega, by omega⟩

/-- A storable image is read back from its bytes. -/
theorem decode_encode (h : img.Storable) : decode img.encode img.data.length = .ok img := by
  refine decode_eq_ok_iff.mpr ⟨(holds_encode_iff img).mpr h, ?_⟩
  rw [drop_encode, Int.toNat_natCast, List.take_left, List.drop_left]

/-! ## §3. Reading, then writing. -/

/-- What was read is what follows the header. -/
theorem append_of_decode (h : decode bs n = .ok img) : img.data ++ img.code = bs.drop 64 := by
  obtain ⟨-, rfl⟩ := decode_eq_ok_iff.mp h
  exact List.take_append_drop _ _

theorem length_data_of_decode (h : decode bs n = .ok img) : (img.data.length : Int) = n := by
  obtain ⟨hholds, rfl⟩ := decode_eq_ok_iff.mp h
  have hnonneg := hholds.nonneg
  have hwithin := hholds.within
  have hroom := hholds.room
  show ((((bs.drop 64).take n.toNat).length : Nat) : Int) = n
  rw [List.length_take, List.length_drop]
  omega

/-- Bytes that hold an image are the mark, the filling of the header and what follows it. -/
theorem Holds.exists_filling (h : Holds bs n) :
    ∃ filling, filling.length = 60 ∧ bs = ascii "-21-" ++ filling ++ bs.drop 64 := by
  obtain ⟨rest, rfl⟩ := h.mark
  have hroom : 64 ≤ 4 + rest.length := by
    have hlength := h.room
    rw [List.length_append] at hlength
    exact hlength
  refine ⟨rest.take 60, ?_, ?_⟩
  · rw [List.length_take]
    omega
  · have hdrop : (ascii "-21-" ++ rest).drop 64 = rest.drop 60 := List.drop_append
    rw [hdrop, List.append_assoc, List.take_append_drop]

/-- Clearing the filling leaves the mark and what follows the header. -/
theorem clearFilling_append {filling body : Bytes} (hfilling : filling.length = 60) :
    clearFilling (ascii "-21-" ++ filling ++ body) =
      ascii "-21-" ++ List.replicate 60 0 ++ body := by
  have hmiddle : filling.mapIdx (fun i b => if 4 ≤ i + 4 ∧ i + 4 < 64 then 0 else b) =
      List.replicate 60 0 := by
    refine List.eq_replicate_iff.mpr ⟨by rw [List.length_mapIdx, hfilling], ?_⟩
    intro b hb
    obtain ⟨i, hi, rfl⟩ := List.mem_mapIdx.mp hb
    exact if_pos (by omega)
  have hend : body.mapIdx (fun i b => if 4 ≤ i + 64 ∧ i + 64 < 64 then 0 else b) = body := by
    refine List.ext_getElem List.length_mapIdx ?_
    intro i hi hi'
    rw [List.getElem_mapIdx, if_neg (by omega)]
  have hlength : (ascii "-21-" ++ filling).length = 64 := by
    rw [List.length_append, hfilling]
    rfl
  unfold clearFilling
  rw [List.mapIdx_append, List.mapIdx_append, hlength, hend]
  exact congrArg (ascii "-21-" ++ · ++ body) hmiddle

/-- **Writing what was read gives the bytes it was read from with a cleared filling.** -/
theorem encode_of_decode (h : decode bs n = .ok img) : img.encode = clearFilling bs := by
  obtain ⟨filling, hfilling, hbs⟩ := (decode_eq_ok_iff.mp h).1.exists_filling
  rw [hbs, clearFilling_append hfilling, ← append_of_decode h, ← List.append_assoc]
  rfl

theorem clearFilling_eq_self_iff (hroom : 64 ≤ bs.length) :
    clearFilling bs = bs ↔ ∀ i, 4 ≤ i → i < 64 → bs[i]? = some 0 := by
  unfold clearFilling
  constructor
  · intro h i hfrom hto
    rw [← h, List.getElem?_mapIdx, List.getElem?_eq_getElem (by omega)]
    exact congrArg some (if_pos ⟨hfrom, hto⟩)
  · intro h
    refine List.ext_getElem List.length_mapIdx ?_
    intro i hi hi'
    rw [List.getElem_mapIdx]
    by_cases hmiddle : 4 ≤ i ∧ i < 64
    · rw [if_pos hmiddle]
      have hzero := h i hmiddle.1 hmiddle.2
      rw [List.getElem?_eq_getElem hi'] at hzero
      exact (Option.some.inj hzero).symm
    · rw [if_neg hmiddle]

end Image

/-! ## §4. Assembled images. -/

namespace Layout

variable {l : Layout} {r : Record}

theorem data_bind (l : Layout) (r : Record) (name : Bytes) (space : Section) (offset : Nat) :
    (l.bind r name space offset).data = l.data := by
  rw [bind_eq]
  split <;> rfl

theorem data_bindLabel (l : Layout) (r : Record) (space : Section) (offset : Nat) :
    (l.bindLabel r space offset).data = l.data := by
  rw [bindLabel_eq]
  cases r.label with
  | none => rfl
  | some name =>
      cases hdefect : l.labelDefect? name with
      | some d =>
          simp only [hdefect]
          rfl
      | none =>
          simp only [hdefect]
          exact data_bind l r name space offset

theorem data_addSection (l : Layout) (r : Record) (name : Bytes) :
    (l.addSection r name).data = l.data := by
  rw [addSection_eq]
  have hbound : (if l.current = some .data then l.bindLabel r .data l.data.length
      else l.bindLabel r .code l.codeSize).data = l.data := by
    split
    · exact data_bindLabel l r .data _
    · exact data_bindLabel l r .code _
  cases Section.ofName? name with
  | some s => exact hbound
  | none => exact hbound

/-- A text is added only if the data stay within their bound. -/
theorem length_data_addText (h : l.data.length ≤ 256) (name text : Bytes) :
    (l.addText r name text).data.length ≤ 256 := by
  rw [addText_eq]
  cases hdefect : l.labelDefect? name with
  | some d => exact h
  | none =>
      dsimp only
      by_cases hlong : Image.maxDataSize < l.data.length + text.length + 1
      · rw [if_pos hlong]
        exact h
      · rw [if_neg hlong]
        show ((l.bind r name .data l.data.length).data ++ text ++ [0]).length ≤ 256
        rw [data_bind, List.length_append, List.length_append, List.length_singleton]
        unfold Image.maxDataSize at hlong
        omega

theorem length_data_addString (h : l.data.length ≤ 256) (r : Record) :
    (l.addString r).data.length ≤ 256 := by
  rw [addString_eq]
  split
  · split
    · exact h
    · exact length_data_addText h _ _
  · exact h

/-- **No record lets the data grow beyond their bound.** -/
theorem length_data_add (h : l.data.length ≤ 256) (r : Record) : (l.add r).data.length ≤ 256 := by
  rw [add_eq]
  cases r.head with
  | op byte =>
      show (l.bindLabel r .code l.codeSize).data.length ≤ 256
      rw [data_bindLabel]
      exact h
  | directive name =>
      show (l.addDirective r name).data.length ≤ 256
      rw [addDirective_eq]
      split
      · rw [data_addSection]
        exact h
      · split
        · exact length_data_addString h r
        · exact h
  | register _ | immediate _ | reference _ | label _ | string _ => exact h

/-- **Nor do any number of records.** -/
theorem length_data_foldl_add (h : l.data.length ≤ 256) (p : Program) :
    (p.foldl add l).data.length ≤ 256 := by
  induction p generalizing l with
  | nil => exact h
  | cons r p ih => exact ih (length_data_add h r)

end Layout

theorem Program.four_dvd_length_code (table : SymbolTable) (p : Program) :
    4 ∣ (p.code table).length := by
  induction p with
  | nil => exact Nat.dvd_zero 4
  | cons r p ih =>
      unfold Program.code Program.slots at ih ⊢
      cases henc : r.encode? table with
      | none =>
          rw [List.filterMap_cons_none henc]
          exact ih
      | some encoded =>
          rw [List.filterMap_cons_some henc, List.flatMap_cons, List.length_append]
          cases encoded with
          | error d => simpa using ih
          | ok bs =>
              have hslot : 4 ∣ bs.length := ⟨1, Record.length_encode? henc⟩
              exact Nat.dvd_add hslot ih

/-- **An assembled image is storable.** -/
theorem Program.storable_of_assemble {p : Program} {img : Image}
    (h : p.assemble.result = .ok img) : img.Storable := by
  obtain ⟨-, -, rfl, -⟩ := Program.assemble_eq_ok h
  exact ⟨Layout.length_data_foldl_add (Nat.zero_le _) p, Program.four_dvd_length_code _ p⟩

/-- A text that is assembled was read to its end and is a program. -/
theorem Assembler.exists_program_of_assemble {a : Assembler} {file : Bytes} {input : Input}
    {img : Image} (h : (a.assemble file input).result = .ok img) :
    input.failure = none ∧
      ∃ p, Program.parse file input.text = .ok p ∧ p.assemble.result = .ok img := by
  unfold Assembler.assemble at h
  cases hfailure : input.failure with
  | some failure =>
      simp only [hfailure] at h
      exact absurd h nofun
  | none =>
      simp only [hfailure] at h
      cases hparse : Program.parse file input.text with
      | error e =>
          simp only [hparse] at h
          exact absurd h nofun
      | ok p =>
          simp only [hparse] at h
          refine ⟨rfl, p, rfl, ?_⟩
          cases hresult : p.assemble.result with
          | error errors =>
              rw [hresult] at h
              exact absurd h nofun
          | ok made =>
              rw [hresult] at h
              exact congrArg Except.ok (Except.ok.inj h)

/-- A file that holds the bytes of a storable image is loaded as this image. -/
theorem Image.load_of_openFile {img : Image} (h : img.Storable) {openFile : Opener} {name : Bytes}
    (hopen : openFile name = .ok ⟨img.encode, none⟩) :
    Image.load openFile name img.data.length = .ok img := by
  unfold Image.load
  rw [hopen]
  show (Image.decode img.encode img.data.length).mapError (LoadProblem.malformed name) = _
  rw [Image.decode_encode h]
  rfl

/-- **The image codec is exact in both directions.**  An image is read back from its own bytes if it
is storable, and else not at all.  Reading succeeds on the bytes that hold an image with the given
length of data and on no others; it takes what follows the header apart at this length, and writing
the result clears the filling of the header and nothing else.  Every image that comes out of an
assembly is storable, so that it is loaded as it was saved. -/
theorem image_codec_exact :
    (∀ img : Image,
      (img.Storable → Image.decode img.encode img.data.length = .ok img) ∧
      (¬img.Storable → ∃ problem, Image.decode img.encode img.data.length = .error problem)) ∧
    (∀ bs n, (∃ img, Image.decode bs n = .ok img) ↔ Image.Holds bs n) ∧
    (∀ bs n img, Image.decode bs n = .ok img →
      (img.data.length : Int) = n ∧ img.data ++ img.code = bs.drop 64 ∧
      img.encode = Image.clearFilling bs ∧
      (img.encode = bs ↔ ∀ i, 4 ≤ i → i < 64 → bs[i]? = some 0)) ∧
    ∀ img : Image,
      ((∃ p : Program, p.assemble.result = .ok img) ∨
        ∃ (a : Assembler) (file : Bytes) (input : Input), (a.assemble file input).result = .ok img) →
      img.Storable ∧
      (∀ (openFile : Opener) name, openFile name = .ok ⟨img.encode, none⟩ →
        Image.load openFile name img.data.length = .ok img) ∧
      ∀ (files saved : FileTree) name, img.save files name = .ok saved →
        Image.load saved.openFile name img.data.length = .ok img := by
  refine ⟨?_, fun bs n => Image.exists_decode_iff, ?_, ?_⟩
  · intro img
    refine ⟨Image.decode_encode, fun hnot => ?_⟩
    cases hdecode : Image.decode img.encode img.data.length with
    | error problem => exact ⟨problem, rfl⟩
    | ok read =>
        have hholds := Image.exists_decode_iff.mp ⟨read, hdecode⟩
        exact absurd ((Image.holds_encode_iff img).mp hholds) hnot
  · intro bs n img h
    have hencode := Image.encode_of_decode h
    refine ⟨Image.length_data_of_decode h, Image.append_of_decode h, hencode, ?_⟩
    rw [hencode]
    exact Image.clearFilling_eq_self_iff (Image.exists_decode_iff.mp ⟨img, h⟩).room
  · intro img himg
    have hstorable : img.Storable := by
      rcases himg with ⟨p, h⟩ | ⟨a, file, input, h⟩
      · exact Program.storable_of_assemble h
      · obtain ⟨-, p, -, hp⟩ := Assembler.exists_program_of_assemble h
        exact Program.storable_of_assemble hp
    refine ⟨hstorable, fun openFile name => Image.load_of_openFile hstorable, ?_⟩
    intro files saved name hsave
    exact Image.load_of_openFile hstorable (FileTree.openFile_of_writeFile hsave)

/-- A text in the data and an instruction that refers to it. -/
def codecProgram : Program :=
  [{ head := .directive (ascii "data") },
    { label := some (ascii "hi"), head := .directive (ascii "asciiz"),
      operands := [.string (ascii "ab")] },
    { head := .directive (ascii "code") },
    { head := .op 1, operands := [.register 2, .reference (ascii "hi")] }]

/-- Its image. -/
def codecImage : Image := ⟨[97, 98, 0], [1, 2, 0, 0]⟩

/-- The bytes of the image under a header that is filled with sevens. -/
def codecBytes : Bytes := ascii "-21-" ++ List.replicate 60 7 ++ [97, 98, 0, 1, 2, 0, 0]

theorem image_codec_exact_sample :
    codecProgram.assemble.result = .ok codecImage ∧
    Image.decode codecBytes 3 = .ok codecImage ∧
    codecImage.encode = Image.clearFilling codecBytes ∧ codecImage.encode ≠ codecBytes ∧
    (∃ problem, Image.decode (⟨[97], [1, 2]⟩ : Image).encode 1 = .error problem) ∧
    ∃ saved, codecImage.save {} (ascii "out") = .ok saved ∧
      Image.load saved.openFile (ascii "out") 3 = .ok codecImage := by
  obtain ⟨hcodec, -, hread, hassembled⟩ := image_codec_exact
  have hassemble : codecProgram.assemble.result = .ok codecImage := rfl
  have hdecode : Image.decode codecBytes 3 = .ok codecImage := by decide
  obtain ⟨-, -, hencode, hiff⟩ := hread _ _ _ hdecode
  have hragged : ¬(⟨[97], [1, 2]⟩ : Image).Storable := by decide
  refine ⟨hassemble, hdecode, hencode, ?_, (hcodec _).2 hragged, _, rfl, ?_⟩
  · intro hsame
    exact absurd (hiff.mp hsame 4 (by decide) (by decide)) (by decide)
  · exact (hassembled codecImage (.inl ⟨codecProgram, hassemble⟩)).2.2 {} _ (ascii "out") rfl

end Quartet
