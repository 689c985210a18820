/-
  Quartet.Proofs.Files.Writing
  ────────────────────────────
  **WHAT IS WRITTEN UNDER A NAME IS READ BACK UNDER IT.**

  A new file is placed by its directory and its last part, and looked up by all parts in a row.  The
  two ways go through the same directories, and none of these is what the file replaces:

    • `FileTree.enter_put`, `FileTree.walk_put` — a way through directories is still there after
      something that is no directory has been replaced,
    • `FileTree.walk_of_newPath` — the place of a new file is where all parts of its name lead,
    • `FileTree.openFile_of_writeFile` — a file that was written holds what was written.
-/
import Quartet.Bytes
import Quartet.Files.Tree

namespace Quartet

namespace FileTree

variable {t : FileTree}

/-! ## §1. Ways through a tree. -/

/-- A node that is put at a path is found there, and nothing changes elsewhere. -/
theorem at?_put {path : FilePath} (hpath : path ≠ []) (node : FileNode) (other : FilePath) :
    (t.put path node).at? other = if other = path then some node else t.at? other := by
  unfold at? put
  by_cases hsame : other = path
  · subst hsame
    rw [if_neg hpath, if_pos rfl]
    simp
  · rw [if_neg hsame]
    by_cases hnil : other = []
    · rw [if_pos hnil, if_pos hnil]
    · rw [if_neg hnil, if_neg hnil, List.lookup_cons, beq_false_of_ne hsame]
      show List.lookup other (t.nodes.filter _) = _
      induction t.nodes with
      | nil => rfl
      | cons entry nodes ih =>
          by_cases hentry : entry.1 = path
          · -- an earlier node at the path is dropped
            have hother : other ≠ entry.1 := fun h => hsame (h.trans hentry)
            rw [List.filter_cons_of_neg (by simp [hentry]), ih, List.lookup_cons,
                beq_false_of_ne hother]
          · rw [List.filter_cons_of_pos (by simp [hentry]), List.lookup_cons, List.lookup_cons, ih]

/-- Only a directory can be gone on from. -/
theorem directory_of_enter {path : FilePath} {part : Bytes} {next : Option FilePath}
    (h : t.enter (some path) part = .ok next) : t.at? path = some .directory := by
  unfold enter at h
  cases hat : t.at? path with
  | none =>
      simp only [hat] at h
      exact absurd h nofun
  | some node =>
      cases node with
      | directory => rfl
      | file content =>
          simp only [hat] at h
          exact absurd h nofun

/-- The empty part leads nowhere else. -/
theorem eq_of_enter_nil {here next : Option FilePath} (h : t.enter here [] = .ok next) :
    next = here := by
  cases here with
  | none =>
      have hnone : Except.ok none = Except.ok next := h
      exact (Except.ok.inj hnone).symm
  | some path =>
      have hdirectory := directory_of_enter h
      unfold enter at h
      simp only [hdirectory, true_or, if_true] at h
      exact (Except.ok.inj h).symm

/-- **A directory is entered as before after something that is no directory has been replaced.** -/
theorem enter_put {path : FilePath} (hpath : t.at? path ≠ some .directory) {node : FileNode}
    {here next : Option FilePath} {part : Bytes} (h : t.enter here part = .ok next) :
    (t.put path node).enter here part = .ok next := by
  cases here with
  | none => exact h
  | some place =>
      have hdirectory := directory_of_enter h
      -- the place is a directory, so it is not the one that changes
      have hne : place ≠ path := by
        rintro rfl
        exact hpath hdirectory
      have hnil : path ≠ [] := by
        rintro rfl
        exact hpath rfl
      have hat : (t.put path node).at? place = some .directory := by
        rw [at?_put hnil, if_neg hne, hdirectory]
      unfold enter at h ⊢
      simp only [hdirectory] at h
      simp only [hat]
      exact h

theorem walk_cons_eq_ok {here there : Option FilePath} {part : Bytes} {parts : FilePath} :
    t.walk here (part :: parts) = .ok there ↔
      ∃ next, t.enter here part = .ok next ∧ t.walk next parts = .ok there := by
  constructor
  · intro h
    exact bind_eq_ok h
  · rintro ⟨next, hnext, h⟩
    unfold walk
    rw [List.foldlM_cons, hnext]
    exact h

theorem walk_append_eq_ok {here there : Option FilePath} {parts more : FilePath} :
    t.walk here (parts ++ more) = .ok there ↔
      ∃ mid, t.walk here parts = .ok mid ∧ t.walk mid more = .ok there := by
  induction parts generalizing here with
  | nil =>
      constructor
      · intro h
        exact ⟨here, rfl, h⟩
      · rintro ⟨mid, hmid, h⟩
        have heq : Except.ok here = Except.ok mid := hmid
        rw [← Except.ok.inj heq] at h
        exact h
  | cons part parts ih =>
      rw [List.cons_append, walk_cons_eq_ok]
      constructor
      · rintro ⟨next, hnext, h⟩
        obtain ⟨mid, hmid, hrest⟩ := ih.mp h
        exact ⟨mid, walk_cons_eq_ok.mpr ⟨next, hnext, hmid⟩, hrest⟩
      · rintro ⟨mid, hmid, hrest⟩
        obtain ⟨next, hnext, h⟩ := walk_cons_eq_ok.mp hmid
        exact ⟨next, hnext, ih.mpr ⟨mid, h, hrest⟩⟩

/-- **So is a whole way through directories.** -/
theorem walk_put {path : FilePath} (hpath : t.at? path ≠ some .directory) {node : FileNode}
    {here there : Option FilePath} {parts : FilePath} (h : t.walk here parts = .ok there) :
    (t.put path node).walk here parts = .ok there := by
  induction parts generalizing here with
  | nil => exact h
  | cons part parts ih =>
      obtain ⟨next, hnext, hrest⟩ := walk_cons_eq_ok.mp h
      exact walk_cons_eq_ok.mpr ⟨next, enter_put hpath hnext, ih hrest⟩

/-! ## §2. The last part of a name. -/

theorem split_slash (name : Bytes) : split (asciiByte '/' :: name) = [] :: split name := by
  unfold split
  rw [List.foldr_cons, if_pos rfl]

theorem split_cons {b : UInt8} (hb : b ≠ asciiByte '/') {name part : Bytes} {more : FilePath}
    (h : split name = part :: more) : split (b :: name) = (b :: part) :: more := by
  unfold split at h ⊢
  rw [List.foldr_cons, if_neg hb, h]

/-- A name that does not end in a slash has a last part. -/
theorem getLast?_split {name : Bytes} (hne : name ≠ [])
    (hslash : name.getLast? ≠ some (asciiByte '/')) :
    ∃ last, (split name).getLast? = some last ∧ last ≠ [] := by
  induction name with
  | nil => exact absurd rfl hne
  | cons b name ih =>
      by_cases hname : name = []
      · subst hname
        have hb : b ≠ asciiByte '/' := by
          rintro rfl
          exact hslash rfl
        rw [split_cons hb (show split [] = [[]] from rfl)]
        exact ⟨[b], rfl, List.cons_ne_nil _ _⟩
      · rw [List.getLast?_cons_of_ne_nil hname] at hslash
        obtain ⟨last, hlast, hlastne⟩ := ih hname hslash
        by_cases hb : b = asciiByte '/'
        · -- the parts behind a slash stay as they are
          refine ⟨last, ?_, hlastne⟩
          rw [hb, split_slash, List.getLast?_cons, hlast]
          rfl
        · -- the byte goes to the first part, which may be the last one too
          obtain ⟨front, hfront⟩ := List.getLast?_eq_some_iff.mp hlast
          cases front with
          | nil =>
              rw [split_cons hb hfront]
              exact ⟨b :: last, rfl, List.cons_ne_nil _ _⟩
          | cons part front =>
              rw [List.cons_append] at hfront
              rw [split_cons hb hfront, ← List.cons_append, List.getLast?_concat]
              exact ⟨last, rfl, hlastne⟩

/-- All parts of such a name are looked at when a file of this name is placed. -/
theorem exists_parts {name : Bytes} (hne : name ≠ []) (hslash : namesDirectory name ≠ true) :
    ∃ front last, split name = front ++ [last] ∧ partsToLast name = front ++ [last] := by
  have hend : name.getLast? ≠ some (asciiByte '/') := by simpa [namesDirectory] using hslash
  obtain ⟨last, hlast, hlastne⟩ := getLast?_split hne hend
  obtain ⟨front, hfront⟩ := List.getLast?_eq_some_iff.mp hlast
  refine ⟨front, last, hfront, ?_⟩
  unfold partsToLast
  rw [hfront, List.reverse_append, List.reverse_singleton, List.singleton_append,
      List.dropWhile_cons_of_neg (by simpa using hlastne), List.reverse_cons, List.reverse_reverse]

/-! ## §3. Writing and reading. -/

theorem ne_nil_of_checkName {name : Bytes} (h : checkName name = .ok ()) : name ≠ [] := by
  rintro rfl
  exact absurd h nofun

/-- **The place of a new file is where its name leads**, and there is no directory. -/
theorem walk_of_newPath {name : Bytes} {path : FilePath} (h : t.newPath name = .ok path) :
    checkName name = .ok () ∧ t.walk (origin name) (split name) = .ok (some path) ∧
      t.at? path ≠ some .directory := by
  obtain ⟨_, hcheck, h⟩ := bind_eq_ok h
  obtain ⟨parent, hparent, h⟩ := bind_eq_ok h
  by_cases hslash : namesDirectory name
  · rw [if_pos hslash] at h
    exact absurd h nofun
  rw [if_neg hslash] at h
  obtain ⟨place, hplace, h⟩ := bind_eq_ok h
  cases place with
  | none => exact absurd h nofun
  | some place =>
      -- the name is taken apart into the way to its directory and its last part
      obtain ⟨front, last, hsplit, hparts⟩ := exists_parts (ne_nil_of_checkName hcheck) hslash
      rw [hparts, List.dropLast_concat] at hparent
      rw [hparts, List.getLastD_concat] at hplace
      obtain ⟨mid, hmid, hend⟩ := walk_append_eq_ok.mp hparent
      obtain ⟨next, hnext, hdone⟩ := walk_cons_eq_ok.mp hend
      -- the empty part behind the directory has led nowhere else
      have hparentMid : parent = mid := by
        have hsame : Except.ok next = Except.ok parent := hdone
        rw [← Except.ok.inj hsame]
        exact eq_of_enter_nil hnext
      have hway : t.walk (origin name) (split name) = .ok (some place) := by
        rw [hsplit]
        rw [hparentMid] at hplace
        exact walk_append_eq_ok.mpr ⟨mid, hmid, walk_cons_eq_ok.mpr ⟨some place, hplace, rfl⟩⟩
      dsimp only at h
      split at h
      case h_1 => exact absurd h nofun
      case h_2 hfree =>
        obtain rfl := Except.ok.inj h
        exact ⟨hcheck, hway, hfree⟩

/-- **A file that was written holds what was written.** -/
theorem openFile_of_writeFile {name content : Bytes} {written : FileTree}
    (h : t.writeFile name content = .ok written) :
    written.openFile name = .ok ⟨content, none⟩ := by
  unfold writeFile at h
  cases hnew : t.newPath name with
  | error reason =>
      rw [hnew] at h
      exact absurd h nofun
  | ok path =>
      rw [hnew] at h
      obtain rfl := Except.ok.inj h
      obtain ⟨hcheck, hwalk, hpath⟩ := walk_of_newPath hnew
      have hnil : path ≠ [] := by
        rintro rfl
        exact hpath rfl
      have hresolve : (t.put path (.file content)).resolve name = .ok (.file content) := by
        have hat : (t.put path (.file content)).at? path = some (.file content) := by
          rw [at?_put hnil, if_pos rfl]
        unfold resolve
        simp only [hcheck, walk_put hpath hwalk, hat, bind, Except.bind]
      unfold openFile
      rw [hresolve]

end FileTree

end Quartet
