/-
  Quartet.Proofs.Output.Listing
  ─────────────────────────────
  **A LISTING COVERS THE CODE SLOT BY SLOT.**

  A listing goes from one instruction to the address that comes with its text, which is four bytes on
  or, where the code breaks off, its end.  That it comes to an end, that it meets every slot and that a
  slot does not show what stands behind it is all said by one count, `row`, the line of the `j`-th slot:

    • `Listing.Visits` — the walk over the code, one instruction at a time,
    • `Listing.visits_iff` — the walk comes to an end, and has then visited the slots in order,
    • `Listing.lines_eq` — these are the lines that are written,
    • `Listing.plain_of_whole`, `Listing.exists_of_cut` — what stands in a line, and what it ends in,
    • `listing_slot_by_slot` — all of it, and how listings of two codes are put together.
-/
import Quartet.Proofs.Output.Truncation

namespace Quartet

namespace Listing

/-! ## §1. The slots of code. -/

/-- The line of the `j`-th slot, without its end: the address and the instruction there. -/
def row (base : Int64) (code : Bytes) (j : Nat) : Bytes :=
  address (base + Int64.ofNat (4 * j)).toInt ++ (slotPieces (code.drop (4 * j))).flatten

/-- The lines of all slots, the last of which may be cut short. -/
def rows (base : Int64) (code : Bytes) : List Bytes :=
  (List.range ((code.length + 3) / 4)).map (row base code)

theorem length_rows (base : Int64) (code : Bytes) :
    (rows base code).length = (code.length + 3) / 4 := by
  simp [rows]

theorem drop_ne_nil {code : Bytes} {j : Nat} (hj : 4 * j < code.length) : code.drop (4 * j) ≠ [] := by
  intro hnil
  have := List.drop_eq_nil_iff.mp hnil
  omega

/-- Every slot is found at its address, and so is the next one, unless the code ends. -/
theorem at?_slot {code : Bytes} {j : Nat} (hj : 4 * j < code.length) :
    at? code ((4 * j : Nat) : Int) =
      some (slotPieces (code.drop (4 * j)), min (4 * (j + 1)) code.length) := by
  unfold at?
  rw [if_pos (by omega), Int.toNat_natCast]
  rfl

/-- **The lines that are written are those of the slots.** -/
theorem lines_from (base : Int64) (code : Bytes) (k : Nat) :
    ∀ j, j + k = (code.length + 3) / 4 →
      (lines (base + Int64.ofNat (4 * j)) (code.drop (4 * j))).map List.flatten =
        (List.range' j k).map fun i => row base code i ++ ascii "\n" := by
  induction k with
  | zero =>
      intro j hj
      have hnil : code.drop (4 * j) = [] := List.drop_eq_nil_of_le (by omega)
      rw [hnil, lines]
      rfl
  | succ k ih =>
      intro j hj
      have hne : code.drop (4 * j) ≠ [] := drop_ne_nil (by omega)
      have hbase : base + Int64.ofNat (4 * j) + Int64.ofNat slotSize =
          base + Int64.ofNat (4 * (j + 1)) := by
        rw [Int64.add_assoc, ← Int64.ofNat_add]
        rfl
      have hrest := ih (j + 1) (by omega)
      rw [lines, if_neg hne, List.map_cons, hbase, List.drop_drop, List.range'_succ, List.map_cons]
      show _ :: (lines _ (code.drop (4 * j + 4))).map List.flatten = _
      rw [show 4 * j + 4 = 4 * (j + 1) by omega, hrest]
      simp [row]

theorem lines_eq (base : Int64) (code : Bytes) :
    (lines base code).map List.flatten = (rows base code).map (· ++ ascii "\n") := by
  have h := lines_from base code ((code.length + 3) / 4) 0 (Nat.zero_add _)
  rw [show base + Int64.ofNat (4 * 0) = base from Int64.add_zero base] at h
  rw [rows, List.range_eq_range', List.map_map]
  exact h

/-! ## §2. The walk. -/

/-- A walk over code from an address on, with the lines it writes.  A walk goes from an instruction to
the address that comes with it, until it has left the code. -/
inductive Visits (base : Int64) (code : Bytes) : Nat → List Bytes → Prop
  /-- The walk has left the code. -/
  | done {pc : Nat} (hend : code.length ≤ pc) : Visits base code pc []
  /-- The walk visits the instruction at its address. -/
  | visit {pc next : Nat} {pieces : List Bytes} {later : List Bytes}
      (hat : at? code pc = some (pieces, next)) (hlater : Visits base code next later) :
      Visits base code pc ((address (base + Int64.ofNat pc).toInt ++ pieces.flatten) :: later)

/-- A walk can go one way only. -/
theorem Visits.unique {base : Int64} {code : Bytes} {pc : Nat} {visited other : List Bytes}
    (h : Visits base code pc visited) (h' : Visits base code pc other) : visited = other := by
  have houtside : ∀ {pc next : Nat} {pieces : List Bytes}, code.length ≤ pc →
      at? code pc ≠ some (pieces, next) := by
    intro pc next pieces hend hat
    unfold at? at hat
    rw [if_neg (by omega)] at hat
    exact absurd hat (by simp)
  induction h generalizing other with
  | done hend =>
      cases h' with
      | done _ => rfl
      | visit hat _ => exact absurd hat (houtside hend)
  | visit hat _ ih =>
      cases h' with
      | done hend => exact absurd hat (houtside hend)
      | visit hat' hlater' =>
          obtain ⟨rfl, rfl⟩ := Prod.mk.inj (Option.some.inj (hat.symm.trans hat'))
          rw [ih hlater']

/-- **The walk comes to an end**, whatever the code, and visits its slots in order. -/
theorem visits_from (base : Int64) (code : Bytes) (k : Nat) :
    ∀ j, j + k = (code.length + 3) / 4 →
      Visits base code (min (4 * j) code.length) ((List.range' j k).map (row base code)) := by
  -- The slots left are counted down; behind the last one the walk is at the end of the code.
  induction k with
  | zero =>
      intro j hj
      exact Visits.done (by omega)
  | succ k ih =>
      intro j hj
      have hpc : min (4 * j) code.length = 4 * j := by omega
      rw [hpc, List.range'_succ, List.map_cons]
      exact Visits.visit (at?_slot (by omega)) (ih (j + 1) (by omega))

theorem visits_iff {base : Int64} {code : Bytes} {visited : List Bytes} :
    Visits base code 0 visited ↔ visited = rows base code := by
  have hend := visits_from base code ((code.length + 3) / 4) 0 (Nat.zero_add _)
  rw [Nat.mul_zero, Nat.zero_min, ← List.range_eq_range'] at hend
  constructor
  · intro h
    exact h.unique hend
  · intro h
    rw [h]
    exact hend

/-! ## §3. What stands in a line. -/

/-- A byte that neither ends a line nor marks a slot as cut short. -/
def Plain (b : UInt8) : Prop := b ≠ asciiByte '\n' ∧ b ≠ asciiByte '?'

instance (b : UInt8) : Decidable (Plain b) := inferInstanceAs (Decidable (_ ∧ _))

theorem plain_of_all {bs : Bytes} (h : (bs.all fun b => Plain b) = true) : ∀ b ∈ bs, Plain b :=
  fun b hb => of_decide_eq_true (List.all_eq_true.mp h b hb)

theorem plain_decimalNat (n : Nat) : ∀ b ∈ decimalNat n, Plain b := by
  intro b hb
  obtain ⟨d, hd, rfl⟩ := List.mem_map.mp hb
  have hdigit := Nat.isDigit_of_mem_toDigits (by decide) (by decide) hd
  unfold Char.isDigit at hdigit
  rw [Bool.and_eq_true, decide_eq_true_eq, decide_eq_true_eq] at hdigit
  have hlow : 48 ≤ d.toNat := hdigit.1
  have hhigh : d.toNat ≤ 57 := hdigit.2
  -- a digit is neither of the two, by its code point
  have hbyte : (asciiByte d).toNat = d.toNat := UInt8.toNat_ofNat_of_lt' (show d.toNat < 256 by omega)
  constructor
  · intro heq
    have : d.toNat = 10 := by rw [← hbyte, heq]; rfl
    omega
  · intro heq
    have : d.toNat = 63 := by rw [← hbyte, heq]; rfl
    omega

theorem plain_address (n : Int) : ∀ b ∈ address n, Plain b := by
  have hdecimal : ∀ b ∈ decimal n, Plain b := by
    intro b hb
    cases n with
    | ofNat n => exact plain_decimalNat n b hb
    | negSucc n =>
        rcases List.mem_cons.mp hb with rfl | hb
        · decide
        · exact plain_decimalNat (n + 1) b hb
  have hsigned : ∀ b ∈ signedDecimal n, Plain b := by
    intro b hb
    unfold signedDecimal at hb
    split at hb
    · exact hdecimal b hb
    · rcases List.mem_cons.mp hb with rfl | hb
      · decide
      · exact hdecimal b hb
  intro b hb
  unfold address padLeft at hb
  rw [List.mem_append, List.mem_append] at hb
  rcases hb with (hb | hb) | hb
  · rw [(List.mem_replicate.mp hb).2]
    decide
  · exact hsigned b hb
  · exact plain_of_all (by decide) b hb

theorem plain_nameOfByte (byte : UInt8) : ∀ b ∈ Opcode.nameOfByte byte, Plain b := by
  unfold Opcode.nameOfByte
  cases Opcode.ofByte? byte with
  | none => exact plain_of_all (by decide)
  | some op => cases op <;> exact plain_of_all (by decide)

theorem plain_operandPieces (shape : List ArgKind) (args : Bytes) :
    ∀ b ∈ (operandPieces shape args).flatten, Plain b := by
  have hmark : ∀ b ∈ ascii " $" ++ ascii " #", Plain b := plain_of_all (by decide)
  fun_induction operandPieces shape args with
  | case1 shape b rest ih =>
      intro c hc
      rw [List.flatten_cons, List.mem_append, List.mem_append] at hc
      rcases hc with (hc | hc) | hc
      · exact hmark c (List.mem_append_left _ hc)
      · exact plain_decimalNat _ c hc
      · exact ih c hc
  | case2 shape high low rest ih =>
      intro c hc
      rw [List.flatten_cons, List.mem_append, List.mem_append] at hc
      rcases hc with (hc | hc) | hc
      · exact hmark c (List.mem_append_right _ hc)
      · exact plain_decimalNat _ c hc
      · exact ih c hc
  | case3 => exact fun c hc => absurd hc List.not_mem_nil

/-- **A whole slot is not marked.** -/
theorem plain_of_whole {s : Bytes} (h : 4 ≤ s.length) : ∀ b ∈ (slotPieces s).flatten, Plain b := by
  match s, h with
  | op :: a :: b :: c :: rest, _ =>
      intro d hd
      have hd' : d ∈ Opcode.nameOfByte op ++
          (operandPieces (Opcode.shapeOfByte op) [a, b, c]).flatten := hd
      rcases List.mem_append.mp hd' with hd' | hd'
      · exact plain_nameOfByte op d hd'
      · exact plain_operandPieces _ _ d hd'

/-- **A slot that is cut short is marked.** -/
theorem exists_of_cut {s : Bytes} (hne : s ≠ []) (h : s.length < 4) :
    ∃ name, (slotPieces s).flatten = name ++ ascii " ???" ∧ ∀ b ∈ name, Plain b := by
  match s, hne, h with
  | [op], _, _ | [op, _], _, _ | [op, _, _], _, _ =>
      exact ⟨Opcode.nameOfByte op, by simp [slotPieces], plain_nameOfByte op⟩

theorem newline_not_mem_row {base : Int64} {code : Bytes} {j : Nat} (hj : 4 * j < code.length) :
    asciiByte '\n' ∉ row base code j := by
  intro hmem
  rcases List.mem_append.mp hmem with haddress | htext
  · exact (plain_address _ _ haddress).1 rfl
  · by_cases hwhole : 4 ≤ (code.drop (4 * j)).length
    · exact (plain_of_whole hwhole _ htext).1 rfl
    · obtain ⟨name, hname, hplain⟩ := exists_of_cut (drop_ne_nil hj) (by omega)
      rw [hname] at htext
      rcases List.mem_append.mp htext with htext | htext
      · exact (hplain _ htext).1 rfl
      · exact absurd htext (by decide)

/-- A line ends in the mark exactly if there are fewer than four bytes for its slot. -/
theorem mark_suffix_row_iff {base : Int64} {code : Bytes} {j : Nat} (hj : 4 * j < code.length) :
    ascii " ???" <:+ row base code j ↔ code.length < 4 * (j + 1) := by
  have hlength : (code.drop (4 * j)).length = code.length - 4 * j := List.length_drop
  constructor
  · intro hmark
    apply Nat.lt_of_not_le
    intro hwhole
    have hmem : asciiByte '?' ∈ row base code j := hmark.subset (by decide)
    rcases List.mem_append.mp hmem with haddress | htext
    · exact (plain_address _ _ haddress).2 rfl
    · exact (plain_of_whole (by omega) _ htext).2 rfl
  · intro hcut
    obtain ⟨name, hname, -⟩ := exists_of_cut (drop_ne_nil hj) (by omega)
    refine ⟨address (base + Int64.ofNat (4 * j)).toInt ++ name, ?_⟩
    rw [row, hname, List.append_assoc]

/-! ## §4. Two codes. -/

/-- A slot does not depend on what stands before it, but for its address. -/
theorem row_add (base : Int64) {first : Bytes} {k : Nat} (hfirst : first.length = 4 * k)
    (second : Bytes) (j : Nat) :
    row base (first ++ second) (k + j) = row (base + Int64.ofNat first.length) second j := by
  have hdrop : (first ++ second).drop (4 * (k + j)) = second.drop (4 * j) := by
    rw [Nat.mul_add, ← hfirst, List.drop_append, List.drop_eq_nil_of_le (by omega), List.nil_append,
        Nat.add_sub_cancel_left]
  unfold row
  rw [hdrop, Int64.add_assoc, ← Int64.ofNat_add, hfirst, Nat.mul_add]

/-- A whole slot does not depend on what stands behind it. -/
theorem row_append (base : Int64) {first : Bytes} {j : Nat} (hj : 4 * (j + 1) ≤ first.length)
    (second : Bytes) : row base (first ++ second) j = row base first j := by
  have hlength : 4 ≤ (first.drop (4 * j)).length := by
    rw [List.length_drop]
    omega
  have hslot : ∀ s : Bytes, 4 ≤ s.length → slotPieces (s ++ second) = slotPieces s := by
    intro s hs
    match s, hs with
    | op :: a :: b :: c :: rest, _ => rfl
  unfold row
  rw [List.drop_append_of_le_length (by omega), hslot _ hlength]

/-- **Listings are put together** where the first code ends with a slot. -/
theorem rows_append (base : Int64) {first : Bytes} (hfirst : 4 ∣ first.length) (second : Bytes) :
    rows base (first ++ second) =
      rows base first ++ rows (base + Int64.ofNat first.length) second := by
  obtain ⟨k, hk⟩ := hfirst
  have hcount : ((first ++ second).length + 3) / 4 = k + (second.length + 3) / 4 := by
    rw [List.length_append]
    omega
  have hfirstCount : (first.length + 3) / 4 = k := by omega
  unfold rows
  rw [hcount, hfirstCount, List.range_add, List.map_append, List.map_map]
  congr 1
  · apply List.map_congr_left
    intro j hj
    have := List.mem_range.mp hj
    exact row_append base (by omega) second
  · apply List.map_congr_left
    intro j _
    exact row_add base hk second j

end Listing

open Listing in
/-- What a listing without a limit writes. -/
theorem Printout.printOn_code (base : Int64) (code : Bytes) :
    (Printout.code base code).printOn none =
      ⟨{ stored := ((rows base code).flatMap (· ++ ascii "\n")).toArray }, none⟩ := by
  have hlines : (Printout.code base code).pieces.flatten =
      (rows base code).flatMap (· ++ ascii "\n") := by
    show (lines base code).flatten.flatten = _
    rw [List.flatten_flatten, lines_eq, List.flatMap_def]
  rw [printOn_none, hlines]

/-- **A listing covers the code slot by slot.**  Without a limit nothing fails, and there is one line for
every four bytes of the code and one for a rest.  The `j`-th line is the address of the `j`-th slot in
six columns, a tab and the instruction that is found there; it ends in the mark exactly if it is the last
line and the code breaks off in its slot.  The walk that goes on where each instruction says the next one
is comes to an end and writes these lines.  If the code ends with a whole slot, the listing of more code
behind it follows its own. -/
theorem listing_slot_by_slot (base : Int64) (code : Bytes) :
    (∃ rows : List Bytes,
      (Printout.code base code).printOn none =
        ⟨{ stored := (rows.flatMap (· ++ ascii "\n")).toArray }, none⟩ ∧
      rows.length = (code.length + 3) / 4 ∧
      (∀ j (hj : j < rows.length), ∃ pieces,
        Listing.at? code ((4 * j : Nat) : Int) =
          some (pieces, min (4 * (j + 1)) code.length) ∧
        rows[j] = padLeft 6 (signedDecimal (base + Int64.ofNat (4 * j)).toInt) ++ ascii "\t" ++
          pieces.flatten ∧
        asciiByte '\n' ∉ rows[j] ∧
        (ascii " ???" <:+ rows[j] ↔ j + 1 = rows.length ∧ ¬4 ∣ code.length)) ∧
      ∀ visited, Listing.Visits base code 0 visited ↔ visited = rows) ∧
    ∀ more : Bytes, 4 ∣ code.length →
      ((Printout.code base (code ++ more)).printOn none).state.stored.toList =
        ((Printout.code base code).printOn none).state.stored.toList ++
          ((Printout.code (base + Int64.ofNat code.length) more).printOn none).state.stored.toList := by
  constructor
  · refine ⟨Listing.rows base code, Printout.printOn_code base code, Listing.length_rows base code,
      ?_, fun _ => Listing.visits_iff⟩
    intro j hj
    have hcount := Listing.length_rows base code
    have hinside : 4 * j < code.length := by omega
    have hrow : (Listing.rows base code)[j] = Listing.row base code j := by simp [Listing.rows]
    refine ⟨Listing.slotPieces (code.drop (4 * j)), Listing.at?_slot hinside, hrow, ?_, ?_⟩
    · rw [hrow]
      exact Listing.newline_not_mem_row hinside
    · rw [hrow, Listing.mark_suffix_row_iff hinside, hcount]
      omega
  · intro more hwhole
    rw [Printout.printOn_code, Printout.printOn_code, Printout.printOn_code,
        Listing.rows_append base hwhole, List.flatMap_append]

/-- A load at a negative address, then a byte that is no opcode, with one operand byte. -/
def listedCode : Bytes := [1, 2, 1, 0, 255, 9]

theorem listing_slot_by_slot_sample :
    (∃ rows : List Bytes, (∀ visited, Listing.Visits (-4) listedCode 0 visited ↔ visited = rows) ∧
      rows.length = 2 ∧ ∃ row, rows[1]? = some row ∧ ascii " ???" <:+ row) ∧
    4 ∣ (listedCode.take 4).length ∧
    ((Printout.code (-4) listedCode).printOn none).state.stored.toList =
      ascii "    -4\tload $2 #256\n" ++ ascii "     0\tigl ???\n" := by
  have hwhole : 4 ∣ (listedCode.take 4).length := by decide
  obtain ⟨rows, -, hlength, hrows, hvisits⟩ := (listing_slot_by_slot (-4) listedCode).1
  have htwo : rows.length = 2 := hlength
  obtain ⟨-, -, -, -, hmark⟩ := hrows 1 (by omega)
  refine ⟨⟨rows, hvisits, htwo, rows[1], List.getElem?_eq_getElem _, ?_⟩, hwhole, ?_⟩
  · exact hmark.mpr ⟨by omega, by decide⟩
  · refine ((listing_slot_by_slot (-4) (listedCode.take 4)).2 (listedCode.drop 4) hwhole).trans ?_
    rw [(Printout.code _ _).printOn_none, (Printout.code _ _).printOn_none]
    decide +kernel

end Quartet
