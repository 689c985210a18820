/-
  Quartet.Proofs.CommandLine.SavedImages
  ──────────────────────────────────────
  **A SOURCE TEXT AND ITS SAVED IMAGE BEHAVE ALIKE.**

  The commands that run and list a file take it for an image if it starts with the mark of one and
  for a source text if not.  They cannot be wrong about a source text, and from the image on they do
  the same:

    • `Program.parse_of_hasMagic` — no program starts with the mark,
    • `imageOf_source`, `imageOf_encode` — so a source text gives the image it assembles to, and the
      bytes of this image give it again,
    • `alike_act`, `alike_carryOut` — what a command writes and how it ends depends on the image only,
    • `openFile_of_carryOut_assemble` — the command that assembles leaves these bytes behind.
-/
import Quartet.Proofs.Image.Codec
import Quartet.Proofs.Source.Soundness

namespace Quartet

/-! ## §1. The mark. -/

/-- **No program starts with the mark of an image**: a dash opens neither a gap nor a token. -/
theorem Program.parse_of_hasMagic {bs : Bytes} (h : Image.hasMagic bs = true) (file : Bytes) :
    ∃ e, Program.parse file bs = .error e := by
  cases hparse : Program.parse file bs with
  | error e => exact ⟨e, rfl⟩
  | ok p =>
      obtain ⟨rest, rfl⟩ := Image.hasMagic_iff.mp h
      have hdash : Stops (· = '-') (ascii "-21-" ++ rest) :=
        (Program.writes_of_parse hparse).2.stops_char (by decide) (by decide) (by decide) (by decide)
      have hfalse := (stops_asciiByte_cons (by decide)).mp hdash
      exact absurd hfalse (by decide)

/-! ## §2. The image of a file. -/

/-- **A source text gives the image it assembles to**, whatever length of data is asked for. -/
theorem imageOf_source {name src : Bytes} {img : Image}
    (h : (assemble name ⟨src, none⟩).result = .ok img) (n : Int) :
    (imageOf name n (.ok ⟨src, none⟩)).1 = .ok img := by
  obtain ⟨-, p, hparse, -⟩ := Assembler.exists_program_of_assemble h
  have hmark : Image.hasMagic src ≠ true := by
    intro hmagic
    obtain ⟨e, he⟩ := Program.parse_of_hasMagic hmagic name
    rw [he] at hparse
    exact absurd hparse nofun
  unfold imageOf
  simp only [if_neg hmark, h]
  rfl

/-- **The bytes of a storable image give it again.** -/
theorem imageOf_encode {img : Image} (h : img.Storable) (name : Bytes) :
    (imageOf name img.data.length (.ok ⟨img.encode, none⟩)).1 = .ok img := by
  unfold imageOf
  simp only [if_pos (Image.hasMagic_iff.mpr (Image.mark_encode img)), Image.decode_encode h]
  rfl

/-! ## §3. Commands on it. -/

/-- Two commands that do the same, one with a file and one with another, each with the length of the
data in its own file. -/
inductive Invocation.Alike (name : Bytes) (n : Int) (name' : Bytes) (n' : Int) :
    Invocation → Invocation → Prop
  /-- Both run their file. -/
  | run (maxSteps : Int) (dump : Bool) :
      Alike name n name' n' (.run name n maxSteps dump) (.run name' n' maxSteps dump)
  /-- Both list the code of their file. -/
  | list : Alike name n name' n' (.list name n) (.list name' n')

/-- Two doings that differ in what is noted at most. -/
structure Act.Alike (a b : Act) : Prop where
  /-- They write the same. -/
  output : a.output = b.output
  /-- They end alike. -/
  failure : a.failure = b.failure
  /-- The first saves nothing. -/
  save : a.save = none
  /-- Nor does the second. -/
  save' : b.save = none

/-- Two outcomes that differ in files and what is noted at most. -/
def Outcome.Alike (o o' : Outcome) : Prop := o.output = o'.output ∧ o.failure = o'.failure

section Alike

variable {name name' : Bytes} {n n' : Int} {input input' : Except FileError Input}
  {inv inv' : Invocation} {read : ArgumentReader}

/-- **What a command does with its file depends on the image in it only.** -/
theorem alike_act (halike : Invocation.Alike name n name' n' inv inv')
    (himage : (imageOf name n input).1 = (imageOf name' n' input').1) :
    (inv.act input).Alike (inv'.act input') := by
  rcases h : imageOf name n input with ⟨result, entries⟩
  rcases h' : imageOf name' n' input' with ⟨result', entries'⟩
  obtain rfl : result = result' := by simpa only [h, h'] using himage
  cases halike with
  | run maxSteps dump =>
      simp only [Invocation.act, runFile, h, h']
      cases result with
      | error message => exact ⟨rfl, rfl, rfl, rfl⟩
      | ok img => exact ⟨rfl, rfl, rfl, rfl⟩
  | list =>
      simp only [Invocation.act, listFile, h, h']
      cases result with
      | error message => exact ⟨rfl, rfl, rfl, rfl⟩
      | ok img => exact ⟨rfl, rfl, rfl, rfl⟩

theorem Invocation.Alike.file?_eq (h : Invocation.Alike name n name' n' inv inv') :
    inv.file? = some name ∧ inv'.file? = some name' := by
  cases h with
  | run maxSteps dump => exact ⟨rfl, rfl⟩
  | list => exact ⟨rfl, rfl⟩

/-- A command that has a file to read is carried out on it. -/
theorem carryOut_of_file? {args : List Bytes} {debug : Bool}
    (hargs : read args = .ok (inv, debug)) (hfile : inv.file? = some name) (dump : Dumper)
    (files : FileTree) (stdin : Input) : carryOut read dump files stdin args = actOn files inv := by
  unfold carryOut
  rw [hargs]
  cases inv with
  | assemble file output => rfl
  | run file dataSize maxSteps dump => rfl
  | list file dataSize => rfl
  | converse => exact absurd hfile nofun
  | explain => exact absurd hfile nofun

/-- If it saves nothing, its outcome is what it does. -/
theorem actOn_of_save {files : FileTree} (hfile : inv.file? = some name)
    (hsave : (inv.act (files.openFile name)).save = none) :
    actOn files inv =
      { output := (inv.act (files.openFile name)).output.flatten
        failure := (inv.act (files.openFile name)).failure
        files := files
        entries := (inv.act (files.openFile name)).entries } := by
  unfold actOn
  simp only [hfile, hsave]

/-- **Two commands that do the same have the same outcome if their files hold the same image**, and
both leave the files as they are. -/
theorem alike_carryOut (halike : Invocation.Alike name n name' n' inv inv')
    {files files' : FileTree}
    (himage : (imageOf name n (files.openFile name)).1 =
      (imageOf name' n' (files'.openFile name')).1)
    {args args' : List Bytes} {debug debug' : Bool}
    (hargs : read args = .ok (inv, debug)) (hargs' : read args' = .ok (inv', debug'))
    (dump : Dumper) (stdin stdin' : Input) :
    (carryOut read dump files stdin args).Alike (carryOut read dump files' stdin' args') ∧
      (carryOut read dump files stdin args).files = files ∧
      (carryOut read dump files' stdin' args').files = files' := by
  obtain ⟨hfile, hfile'⟩ := halike.file?_eq
  have hact := alike_act halike himage
  rw [carryOut_of_file? hargs hfile, carryOut_of_file? hargs' hfile', actOn_of_save hfile hact.save,
      actOn_of_save hfile' hact.save']
  exact ⟨⟨congrArg List.flatten hact.output, hact.failure⟩, rfl, rfl⟩

end Alike

/-! ## §4. Assembling, then running. -/

/-- **The command that assembles a file leaves the bytes of the image behind**, if it ends well. -/
theorem openFile_of_carryOut_assemble {source output src : Bytes} {img : Image}
    (himg : (assemble source ⟨src, none⟩).result = .ok img) {files : FileTree}
    (hopen : files.openFile source = .ok ⟨src, none⟩) {args : List Bytes} {debug : Bool}
    {read : ArgumentReader} (hargs : read args = .ok (.assemble source output, debug))
    {dump : Dumper} {stdin : Input} (hdone : (carryOut read dump files stdin args).failure = none) :
    (carryOut read dump files stdin args).files.openFile output = .ok ⟨img.encode, none⟩ := by
  rw [carryOut_of_file? hargs rfl] at hdone ⊢
  have hact : (Invocation.assemble source output).act (files.openFile source) =
      { save := some (output, img.encode), entries := (assemble source ⟨src, none⟩).entries } := by
    rw [hopen]
    simp only [Invocation.act, assembleFile, himg]
  unfold actOn at hdone ⊢
  simp only [Invocation.file?, hact] at hdone ⊢
  cases hwrite : files.writeFile output img.encode with
  | error e =>
      rw [hwrite] at hdone
      exact absurd hdone (by simp)
  | ok saved => exact FileTree.openFile_of_writeFile hwrite

/-- **A source text and its saved image behave alike.**  What starts with the mark of an image is no
program.  So a source text that assembles to an image gives this image to the commands that run and
list a file, and so do the image's bytes, read with the length of its data; the two commands write
the same and end alike on both, with every bound on the steps and with or without the dump, however
their arguments are written.  The command that assembles leaves such bytes behind. -/
theorem saved_image_alike :
    (∀ file bs, Image.hasMagic bs = true → ∃ e, Program.parse file bs = .error e) ∧
    ∀ source src img, (assemble source ⟨src, none⟩).result = .ok img →
      (∀ n, (imageOf source n (.ok ⟨src, none⟩)).1 = .ok img) ∧
      (∀ saved, (imageOf saved img.data.length (.ok ⟨img.encode, none⟩)).1 = .ok img) ∧
      ∀ (read : ArgumentReader) (dump : Dumper),
        (∀ (files files' : FileTree) saved n inv inv' args args' debug debug' stdin stdin',
          files.openFile source = .ok ⟨src, none⟩ →
          files'.openFile saved = .ok ⟨img.encode, none⟩ →
          Invocation.Alike source n saved img.data.length inv inv' →
          read args = .ok (inv, debug) → read args' = .ok (inv', debug') →
          (carryOut read dump files stdin args).Alike (carryOut read dump files' stdin' args') ∧
            (carryOut read dump files stdin args).files = files ∧
            (carryOut read dump files' stdin' args').files = files') ∧
        ∀ (files : FileTree) output args debug stdin,
          files.openFile source = .ok ⟨src, none⟩ →
          read args = .ok (.assemble source output, debug) →
          (carryOut read dump files stdin args).failure = none →
          (carryOut read dump files stdin args).files.openFile output =
            .ok ⟨img.encode, none⟩ := by
  refine ⟨fun file bs h => Program.parse_of_hasMagic h file, ?_⟩
  intro source src img himg
  obtain ⟨-, p, -, hp⟩ := Assembler.exists_program_of_assemble himg
  have hstorable : img.Storable := Program.storable_of_assemble hp
  refine ⟨imageOf_source himg, imageOf_encode hstorable, fun read dump => ⟨?_, ?_⟩⟩
  · intro files files' saved n inv inv' args args' debug debug' stdin stdin' hopen hopen' halike
      hargs hargs'
    have himage : (imageOf source n (files.openFile source)).1 =
        (imageOf saved img.data.length (files'.openFile saved)).1 := by
      rw [hopen, hopen', imageOf_source himg, imageOf_encode hstorable]
    exact alike_carryOut halike himage hargs hargs' dump stdin stdin'
  · intro files output args debug stdin hopen hargs hdone
    exact openFile_of_carryOut_assemble himg hopen hargs hdone

/-- A text in the data and instructions that are cut short after the first. -/
def savedSource : Bytes := ascii ".data\nhi: .asciiz 'ab'\n.code ; begin\nload $1 @hi\nhlt"

/-- Its image. -/
def savedImage : Image := ⟨[97, 98, 0], [1, 1, 0, 0, 0, 0, 0, 0]⟩

/-- A working directory with this source. -/
def savedFiles : FileTree := ({} : FileTree).put [ascii "a.s"] (.file savedSource)

/-- What arguments lead to in a working directory, where buffers are shown as their bytes. -/
def savedRun (files : FileTree) (args : List Bytes) : Outcome :=
  carryOut Invocation.read (fun _ b => [b.bytes.toList]) files ⟨[], none⟩ args

/-- The outcome of assembling it. -/
def savedOutcome : Outcome :=
  savedRun savedFiles [ascii "asm", ascii "a.s", ascii "-o", ascii "a.pie"]

theorem saved_image_alike_sample :
    (assemble (ascii "a.s") ⟨savedSource, none⟩).result = .ok savedImage ∧
    savedOutcome.files.openFile (ascii "a.pie") = .ok ⟨savedImage.encode, none⟩ ∧
    (savedRun savedFiles
      [ascii "run", ascii "a.s", ascii "--max-steps", ascii "1", ascii "--dump"]).Alike
      (savedRun savedOutcome.files
        [ascii "run", ascii "a.pie", ascii "--data=3", ascii "--max-steps=1", ascii "--dump"]) ∧
    (savedRun savedFiles
      [ascii "run", ascii "a.s", ascii "--max-steps", ascii "1", ascii "--dump"]).failure =
      some (ascii "step budget of 1 instructions exhausted at pc=4") := by
  have himg : (assemble (ascii "a.s") ⟨savedSource, none⟩).result = .ok savedImage := by
    decide +kernel
  obtain ⟨-, hsaved⟩ := saved_image_alike
  obtain ⟨-, -, hcommands⟩ := hsaved _ _ _ himg
  obtain ⟨hrun, hassemble⟩ := hcommands Invocation.read (fun _ b => [b.bytes.toList])
  have hopen : savedFiles.openFile (ascii "a.s") = .ok ⟨savedSource, none⟩ := by decide +kernel
  have hbuilt := hassemble savedFiles (ascii "a.pie")
    [ascii "asm", ascii "a.s", ascii "-o", ascii "a.pie"] false ⟨[], none⟩ hopen
    (by decide +kernel) (by decide +kernel)
  refine ⟨himg, hbuilt, ?_, by decide +kernel⟩
  exact (hrun savedFiles savedOutcome.files (ascii "a.pie") 0 _ _ _ _ false false ⟨[], none⟩
    ⟨[], none⟩ hopen hbuilt (.run 1 true) (by decide +kernel) (by decide +kernel)).1

end Quartet
