/-
  Quartet.Proofs.Source.Frames
  ────────────────────────────
  **THE SAME TEXT ELSEWHERE.**

  A reader looks one glyph beyond what it takes and at nothing else.  So what is read at the beginning
  of a text is read also where this beginning stands behind other text, which moves its positions, or
  where something else follows it, as long as that starts with a newline:

    • `Frame` — what may stand around the beginning of a text,
    • `Frame.run_cursor`, `Frame.skipGap_cursor` — runs and gaps,
    • `Frame.operands_cursor`, `Frame.head_cursor`, `Frame.record_cursor` — tokens and records,
    • `Frame.records_cursor` — hence all records of the beginning.
-/
import Quartet.Proofs.Source.Outcomes

namespace Quartet

/-! ## §1. What readers leave. -/

namespace Cursor

variable {c d : Cursor} {p : Char → Bool}

theorem at?_skipRun (c : Cursor) (p : Char → Bool) : (c.skipRun p).at? p = false := by
  have hstop := List.head?_dropWhile_not (fun g : Glyph => p g.char) c.rest
  unfold skipRun at?
  cases hdrop : c.rest.dropWhile fun g => p g.char with
  | nil => rfl
  | cons g rest =>
      rw [hdrop] at hstop
      exact hstop

theorem run_of_not_at? (h : c.at? p = false) : c.run p = [] := by
  unfold at? at h
  unfold run
  cases hrest : c.rest with
  | nil => rfl
  | cons g rest =>
      rw [hrest] at h
      refine List.takeWhile_cons_of_neg ?_
      rw [show p g.char = false from h]
      exact Bool.false_ne_true

/-- Behind a gap there is neither white space nor a comment. -/
theorem at?_skipGap_go (gs : List Glyph) : ∀ comment pos,
    (skipGap.go comment pos gs).at? (· = ';') = false ∧
      (skipGap.go comment pos gs).at? isBlank = false := by
  induction gs with
  | nil => intro comment pos; exact ⟨rfl, rfl⟩
  | cons g gs ih =>
      intro comment pos
      cases comment with
      | true =>
          rw [Cursor.skipGap_go_true_cons]
          exact ih _ _
      | false =>
          rw [Cursor.skipGap_go_cons]
          by_cases hsemi : g.char = ';'
          · rw [if_pos hsemi]
            exact ih _ _
          · rw [if_neg hsemi]
            by_cases hblank : g.isBlank = true
            · rw [if_pos hblank]
              exact ih _ _
            · rw [if_neg hblank]
              exact ⟨decide_eq_false hsemi, Bool.eq_false_iff.mpr hblank⟩

theorem skipGap_skipGap (c : Cursor) : c.skipGap.skipGap = c.skipGap := by
  obtain ⟨hsemi, hblank⟩ := at?_skipGap_go c.rest false c.pos
  exact Cursor.skipGap_of_not_at? hsemi hblank

theorem length_skipName_lt (hstart : c.at? isNameStart = true) :
    c.skipName.rest.length < c.rest.length := by
  refine length_skipRun_lt ?_
  unfold at? at hstart ⊢
  cases hrest : c.rest with
  | nil =>
      rw [hrest] at hstart
      exact absurd hstart Bool.false_ne_true
  | cons g rest =>
      rw [hrest] at hstart
      exact isNamePart_of_isNameStart hstart

theorem length_label_lt {name : Bytes} (hlabel : c.label = (some name, d)) :
    d.rest.length < c.rest.length := by
  unfold label at hlabel
  split at hlabel
  · next hat =>
    obtain ⟨-, rfl⟩ := Prod.mk.inj hlabel
    rw [Bool.and_eq_true] at hat
    have hgap := length_skipGap_le c.skipName.next
    have hcolon := length_next_lt hat.2
    have hname := length_skipName_lt hat.1
    omega
  · exact absurd hlabel (by simp)

/-- A head takes at least the name that stands at the cursor. -/
theorem length_head_le_skipName {label : Option Bytes} {t : Token}
    (hok : head label c = .ok (t, d)) :
    d.rest.length ≤ c.skipName.rest.length := by
  have hlt := length_head_lt hok
  unfold head at hok
  split at hok
  · next hdot =>
    -- a point is no part of a name
    have hnone : c.at? isNamePart = false := by
      unfold at? at hdot ⊢
      cases hrest : c.rest with
      | nil => rfl
      | cons g rest =>
          rw [hrest] at hdot
          show isNamePart g.char = false
          rw [of_decide_eq_true hdot]
          decide +kernel
    rw [skipName, Cursor.skipRun_of_not_at? hnone]
    exact Nat.le_of_lt hlt
  · split at hok
    · split at hok
      · obtain ⟨-, rfl⟩ := Prod.mk.inj (Except.ok.inj hok)
        exact Nat.le_refl _
      · exact absurd hok (by simp)
    · split at hok <;> exact absurd hok (by simp)

theorem operand_eq_none_iff : c.operand = none ↔
    c.at? (· = '$') = false ∧ c.at? (· = '#') = false ∧ c.at? (· = '@') = false ∧
      c.at? (· = '\'') = false := by
  unfold operand
  cases c.at? (· = '$') <;> cases c.at? (· = '#') <;> cases c.at? (· = '@') <;>
    cases c.at? (· = '\'') <;> simp

/-- What is read next does not depend on the gap before it. -/
theorem records_of_skipGap_eq (h : c.skipGap = d.skipGap) (before : Array Record) :
    c.records before = d.records before := by
  by_cases hend : d.skipGap.rest = []
  · rw [records, records, if_pos (h ▸ hend), if_pos hend]
  · cases hrecord : d.skipGap.record with
    | error e =>
        rw [records_of_error hend hrecord,
            records_of_error (h ▸ hend) (h ▸ hrecord)]
    | ok x =>
        obtain ⟨r, after⟩ := x
        rw [records_of_record hrecord, records_of_record (h ▸ hrecord)]

theorem ReadsOn.length_le {q : List Record} (h : ReadsOn c q d) :
    d.rest.length ≤ c.rest.length := by
  induction h with
  | done c => exact Nat.le_refl _
  | @record c after d r q hrecord _ ih =>
      have hlt := length_record_lt hrecord
      have hgap := length_skipGap_le c
      omega

end Cursor

/-! ## §2. Frames. -/

/-- What may stand around the beginning of a text. -/
structure Frame where
  /-- Where a place of the text is found. -/
  move : Position → Position
  /-- How many of the last glyphs are not there. -/
  cut : Nat
  /-- What stands there in their place. -/
  tail : List Glyph
  /-- Places keep their distance. -/
  move_advance : ∀ p g, move (p.advance g) = (move p).advance g
  /-- The beginning is followed by a newline, or by nothing. -/
  tail_newline : ∀ g ∈ tail.head?, g.char = '\n'
  /-- It is not followed by operands. -/
  tail_operand : ∀ pos, (⟨pos, tail⟩ : Cursor).skipGap.operand = none

namespace Frame

/-- What follows a cursor in the frame. -/
def rest (F : Frame) (gs : List Glyph) : List Glyph := gs.take (gs.length - F.cut) ++ F.tail

/-- A cursor in the frame. -/
def cursor (F : Frame) (c : Cursor) : Cursor := ⟨F.move c.pos, F.rest c.rest⟩

/-- A record in the frame. -/
def record (F : Frame) (r : Record) : Record := { r with pos := F.move r.pos }

variable (F : Frame) {c d : Cursor} {p : Char → Bool}

/-! ## §3. Looking and moving on. -/

theorem rest_append (gs : List Glyph) {more : List Glyph} (h : F.cut ≤ more.length) :
    F.rest (gs ++ more) = gs ++ F.rest more := by
  unfold rest
  rw [List.length_append, Nat.add_sub_assoc h, List.take_length_add_append, List.append_assoc]

theorem rest_cons (g : Glyph) {more : List Glyph} (h : F.cut ≤ more.length) :
    F.rest (g :: more) = g :: F.rest more :=
  F.rest_append [g] h

theorem rest_of_length {gs : List Glyph} (h : gs.length = F.cut) : F.rest gs = F.tail := by
  unfold rest
  rw [h, Nat.sub_self]
  rfl

theorem move_foldl_advance (gs : List Glyph) :
    ∀ pos, F.move (gs.foldl Position.advance pos) = gs.foldl Position.advance (F.move pos) := by
  induction gs with
  | nil => intro pos; rfl
  | cons g gs ih =>
      intro pos
      rw [List.foldl_cons, ih, F.move_advance]
      rfl

theorem at?_cursor (h : F.cut < c.rest.length) (p : Char → Bool) : (F.cursor c).at? p = c.at? p := by
  obtain ⟨pos, rest⟩ := c
  cases rest with
  | nil => exact absurd h (Nat.not_lt_zero _)
  | cons g rest =>
      show Cursor.at? ⟨F.move pos, F.rest (g :: rest)⟩ p = _
      rw [F.rest_cons g (Nat.le_of_lt_succ h)]
      rfl

/-- Where the beginning ends, a newline is seen or nothing. -/
theorem at?_cursor_of_length (h : c.rest.length = F.cut) (hp : p '\n' = false) :
    (F.cursor c).at? p = false := by
  unfold cursor Cursor.at?
  rw [F.rest_of_length h]
  cases htail : F.tail with
  | nil => rfl
  | cons g more =>
      have hchar : g.char = '\n' := F.tail_newline g (by rw [htail]; rfl)
      show p g.char = false
      rw [hchar, hp]

/-- What is not a newline is seen if it is there, unless it does not belong to the beginning. -/
theorem at?_cursor_of_newline (hcut : F.cut ≤ c.rest.length) (hp : p '\n' = false)
    (h : c.at? p = true → F.cut < c.rest.length) : (F.cursor c).at? p = c.at? p := by
  rcases Nat.lt_or_eq_of_le hcut with hlt | heq
  · exact F.at?_cursor hlt p
  · rw [F.at?_cursor_of_length heq.symm hp]
    cases hat : c.at? p with
    | false => rfl
    | true => exact absurd (h hat) (by omega)

theorem next_cursor (h : F.cut < c.rest.length) : (F.cursor c).next = F.cursor c.next := by
  obtain ⟨pos, rest⟩ := c
  cases rest with
  | nil => exact absurd h (Nat.not_lt_zero _)
  | cons g rest =>
      show Cursor.next ⟨F.move pos, F.rest (g :: rest)⟩ = ⟨F.move (pos.advance g), F.rest rest⟩
      rw [F.rest_cons g (Nat.le_of_lt_succ h), F.move_advance]
      rfl

/-- **A run is taken as it stands**, if it ends inside of the beginning, or at its end and a newline
does not continue it. -/
theorem run_cursor (hcut : F.cut ≤ (c.skipRun p).rest.length)
    (hp : p '\n' = true → F.cut < (c.skipRun p).rest.length) :
    (F.cursor c).run p = c.run p ∧ (F.cursor c).skipRun p = F.cursor (c.skipRun p) := by
  have hstop : (F.cursor (c.skipRun p)).at? p = false := by
    rcases Nat.lt_or_eq_of_le hcut with hlt | heq
    · rw [F.at?_cursor hlt, Cursor.at?_skipRun]
    · refine F.at?_cursor_of_length heq.symm ?_
      cases hnewline : p '\n' with
      | false => rfl
      | true => exact absurd (hp hnewline) (by omega)
  have hall : ∀ g ∈ c.run p, p g.char = true := List.all_eq_true.mp List.all_takeWhile
  have hrest : F.rest c.rest = c.run p ++ (F.cursor (c.skipRun p)).rest := by
    refine Eq.trans ?_ (F.rest_append (c.run p) hcut)
    exact congrArg F.rest List.takeWhile_append_dropWhile.symm
  -- the run is all that has the property, since what follows it in the frame has not
  have htake : (F.cursor (c.skipRun p)).rest.takeWhile (fun g => p g.char) = [] :=
    Cursor.run_of_not_at? hstop
  have hdrop : (F.cursor (c.skipRun p)).rest.dropWhile (fun g => p g.char) =
      (F.cursor (c.skipRun p)).rest :=
    congrArg Cursor.rest (Cursor.skipRun_of_not_at? hstop)
  have hrun : (F.cursor c).run p = c.run p := by
    show (F.rest c.rest).takeWhile _ = _
    rw [hrest, List.takeWhile_append_of_pos hall, htake, List.append_nil]
  refine ⟨hrun, ?_⟩
  show (⟨((F.cursor c).run p).foldl Position.advance (F.move c.pos), _⟩ : Cursor) =
    ⟨F.move ((c.run p).foldl Position.advance c.pos), (F.cursor (c.skipRun p)).rest⟩
  rw [hrun, F.move_foldl_advance]
  congr 1
  show (F.rest c.rest).dropWhile _ = _
  rw [hrest, List.dropWhile_append_of_pos hall, hdrop]

theorem run_cursor_of_newline (hcut : F.cut ≤ (c.skipRun p).rest.length) (hp : p '\n' = false) :
    (F.cursor c).run p = c.run p ∧ (F.cursor c).skipRun p = F.cursor (c.skipRun p) :=
  F.run_cursor hcut fun hnewline => absurd (hp.symm.trans hnewline) Bool.false_ne_true

theorem isNamePart_newline : isNamePart '\n' = false := isNamePart_of_isBlank (by decide)

theorem name_cursor (hcut : F.cut ≤ c.skipName.rest.length) :
    (F.cursor c).name = c.name ∧ (F.cursor c).skipName = F.cursor c.skipName := by
  obtain ⟨hrun, hskip⟩ := F.run_cursor_of_newline hcut isNamePart_newline
  refine ⟨?_, hskip⟩
  unfold Cursor.name
  rw [hrun]

/-! ## §4. Gaps. -/

/-- The newline that follows the beginning ends a comment at its end. -/
theorem skipGap_go_tail (comment : Bool) (pos : Position) :
    Cursor.skipGap.go comment pos F.tail = Cursor.skipGap ⟨pos, F.tail⟩ := by
  cases comment with
  | false => rfl
  | true =>
      show _ = Cursor.skipGap.go false pos F.tail
      cases htail : F.tail with
      | nil => rfl
      | cons g more =>
          have hchar : g.char = '\n' := F.tail_newline g (by rw [htail]; rfl)
          have hblank : g.isBlank = true := by
            unfold Glyph.isBlank
            rw [hchar]
            decide
          rw [Cursor.skipGap_go_true_cons, Cursor.skipGap_go_cons, if_neg (by rw [hchar]; decide),
              if_pos hblank, decide_eq_false (not_not_intro hchar)]

theorem skipGap_go_cursor (gs : List Glyph) : ∀ {comment : Bool} {pos : Position},
    F.cut ≤ (Cursor.skipGap.go comment pos gs).rest.length →
      Cursor.skipGap.go comment (F.move pos) (F.rest gs) =
        (F.cursor (Cursor.skipGap.go comment pos gs)).skipGap := by
  induction gs with
  | nil =>
      intro comment pos hcut
      have hnone : ([] : List Glyph).length = F.cut := (Nat.le_zero.mp hcut).symm
      show _ = Cursor.skipGap ⟨F.move pos, F.rest []⟩
      rw [F.rest_of_length hnone, F.skipGap_go_tail]
  | cons g gs ih =>
      intro comment pos
      -- one glyph of a gap or comment is passed in the frame as it is outside
      have hpass : ∀ comment', F.cut ≤ (Cursor.skipGap.go comment' (pos.advance g) gs).rest.length →
          F.rest (g :: gs) = g :: F.rest gs ∧
            Cursor.skipGap.go comment' ((F.move pos).advance g) (F.rest gs) =
              (F.cursor (Cursor.skipGap.go comment' (pos.advance g) gs)).skipGap := by
        intro comment' hcut
        refine ⟨F.rest_cons g (Nat.le_trans hcut (Cursor.length_skipGap_go_le _ _ _)), ?_⟩
        rw [← F.move_advance]
        exact ih hcut
      cases comment with
      | true =>
          rw [Cursor.skipGap_go_true_cons]
          intro hcut
          obtain ⟨hrest, hgo⟩ := hpass _ hcut
          rw [hrest, Cursor.skipGap_go_true_cons, hgo]
      | false =>
          rw [Cursor.skipGap_go_cons]
          by_cases hsemi : g.char = ';'
          · rw [if_pos hsemi]
            intro hcut
            obtain ⟨hrest, hgo⟩ := hpass _ hcut
            rw [hrest, Cursor.skipGap_go_cons, if_pos hsemi, hgo]
          · rw [if_neg hsemi]
            by_cases hblank : g.isBlank = true
            · rw [if_pos hblank]
              intro hcut
              obtain ⟨hrest, hgo⟩ := hpass _ hcut
              rw [hrest, Cursor.skipGap_go_cons, if_neg hsemi, if_pos hblank, hgo]
            · rw [if_neg hblank]
              intro _
              rfl

/-- **A gap is passed**; at the end of the beginning it may go on in what follows. -/
theorem skipGap_cursor (hcut : F.cut ≤ c.skipGap.rest.length) :
    (F.cursor c).skipGap = (F.cursor c.skipGap).skipGap :=
  F.skipGap_go_cursor c.rest hcut

theorem skipGap_cursor_of_lt (h : F.cut < c.skipGap.rest.length) :
    (F.cursor c).skipGap = F.cursor c.skipGap := by
  obtain ⟨hsemi, hblank⟩ := Cursor.at?_skipGap_go c.rest false c.pos
  rw [F.skipGap_cursor (Nat.le_of_lt h)]
  refine Cursor.skipGap_of_not_at? ?_ ?_
  · rw [F.at?_cursor h]
    exact hsemi
  · rw [F.at?_cursor h]
    exact hblank

/-- Where no gap stands, none is passed. -/
theorem skipGap_cursor_of_eq (hgap : c.skipGap = c) (h : F.cut < c.rest.length) :
    (F.cursor c).skipGap = F.cursor c := by
  have hlt : F.cut < c.skipGap.rest.length := by rwa [hgap]
  rw [F.skipGap_cursor_of_lt hlt, hgap]

/-! ## §5. Operands. -/

section

variable {t : Token} {ts : List Token}

theorem registerOperand_cursor (hat : c.at? (· = '$') = true)
    (hok : c.registerOperand = .ok (t, d)) (hcut : F.cut ≤ d.rest.length) :
    F.cut < c.rest.length ∧ (F.cursor c).registerOperand = .ok (t, F.cursor d) := by
  unfold Cursor.registerOperand at hok
  simp only at hok
  split at hok
  · exact absurd hok (by simp)
  · next hdigits =>
    split at hok
    · exact absurd hok (by simp)
    · next hrange =>
      obtain ⟨rfl, rfl⟩ := Prod.mk.inj (Except.ok.inj hok)
      have hlt : F.cut < c.rest.length := Nat.lt_of_le_of_lt
        (Nat.le_trans hcut (Cursor.length_skipRun_le _ _)) (Cursor.length_next_lt hat)
      obtain ⟨hrun, hskip⟩ := F.run_cursor_of_newline hcut (by decide)
      refine ⟨hlt, ?_⟩
      unfold Cursor.registerOperand
      simp only [F.next_cursor hlt, hrun, hskip, if_neg hdigits, if_neg hrange]

/-- A sign is taken as it stands. -/
theorem skipSign_cursor (hcut : F.cut ≤ c.skipSign.rest.length) :
    (F.cursor c).sign = c.sign ∧ (F.cursor c).skipSign = F.cursor c.skipSign := by
  by_cases hsign : c.sign = []
  · have hstay : c.skipSign = c := if_pos hsign
    rw [hstay] at hcut
    have hnone : (F.cursor c).sign = [] := by
      rw [Cursor.sign_eq_nil_iff] at hsign ⊢
      rw [F.at?_cursor_of_newline hcut (by decide), hsign]
      intro hat
      exact absurd (hsign.symm.trans hat) Bool.false_ne_true
    refine ⟨by rw [hnone, hsign], ?_⟩
    rw [hstay]
    exact if_pos hnone
  · have hmove : c.skipSign = c.next := if_neg hsign
    have hat : c.at? (· = '-') = true := by
      rwa [Cursor.sign_eq_nil_iff, Bool.not_eq_false] at hsign
    rw [hmove] at hcut ⊢
    have hlt : F.cut < c.rest.length := Nat.lt_of_le_of_lt hcut (Cursor.length_next_lt hat)
    have hsame : (F.cursor c).sign = c.sign := by
      obtain ⟨pos, rest⟩ := c
      cases rest with
      | nil => exact absurd hlt (Nat.not_lt_zero _)
      | cons g rest =>
          unfold Cursor.sign
          rw [show (F.cursor ⟨pos, g :: rest⟩).rest = g :: F.rest rest from
            F.rest_cons g (Nat.le_of_lt_succ hlt)]
          rfl
    refine ⟨hsame, ?_⟩
    rw [← F.next_cursor hlt]
    unfold Cursor.skipSign
    rw [hsame, if_neg hsign]

theorem immediateOperand_cursor (hat : c.at? (· = '#') = true)
    (hok : c.immediateOperand = .ok (t, d)) (hcut : F.cut ≤ d.rest.length) :
    F.cut < c.rest.length ∧ (F.cursor c).immediateOperand = .ok (t, F.cursor d) := by
  unfold Cursor.immediateOperand at hok
  simp only at hok
  split at hok
  · exact absurd hok (by simp)
  · next hdigits =>
    split at hok
    · exact absurd hok (by simp)
    · next hrange =>
      obtain ⟨rfl, rfl⟩ := Prod.mk.inj (Except.ok.inj hok)
      have hsigned := Nat.le_trans hcut (Cursor.length_skipRun_le _ _)
      have hlt : F.cut < c.rest.length := Nat.lt_of_le_of_lt
        (Nat.le_trans hsigned (Cursor.length_skipSign_le _)) (Cursor.length_next_lt hat)
      obtain ⟨hsign, hskipSign⟩ := F.skipSign_cursor hsigned
      obtain ⟨hrun, hskip⟩ := F.run_cursor_of_newline hcut (by decide)
      refine ⟨hlt, ?_⟩
      unfold Cursor.immediateOperand
      simp only [F.next_cursor hlt, hsign, hskipSign, hrun, hskip, if_neg hdigits, if_neg hrange]

theorem referenceOperand_cursor (hat : c.at? (· = '@') = true)
    (hok : c.referenceOperand = .ok (t, d)) (hcut : F.cut ≤ d.rest.length) :
    F.cut < c.rest.length ∧ (F.cursor c).referenceOperand = .ok (t, F.cursor d) := by
  unfold Cursor.referenceOperand at hok
  split at hok
  · next hstart =>
    obtain ⟨rfl, rfl⟩ := Prod.mk.inj (Except.ok.inj hok)
    have hname := Nat.lt_of_le_of_lt hcut (Cursor.length_skipName_lt hstart)
    have hlt := Nat.lt_trans hname (Cursor.length_next_lt hat)
    obtain ⟨hsame, hskip⟩ := F.name_cursor hcut
    refine ⟨hlt, ?_⟩
    unfold Cursor.referenceOperand
    rw [F.next_cursor hlt, F.at?_cursor hname, if_pos hstart, hsame, hskip]
  · exact absurd hok (by simp)

theorem stringOperand_cursor (hat : c.at? (· = '\'') = true)
    (hok : c.stringOperand = .ok (t, d)) (hcut : F.cut ≤ d.rest.length) :
    F.cut < c.rest.length ∧ (F.cursor c).stringOperand = .ok (t, F.cursor d) := by
  unfold Cursor.stringOperand at hok
  simp only at hok
  split at hok
  · exact absurd hok (by simp)
  · next hended =>
    obtain ⟨rfl, rfl⟩ := Prod.mk.inj (Except.ok.inj hok)
    -- a newline does not end the text, but its quotation mark belongs to the beginning
    have hmark : (c.next.skipRun (· ≠ '\'')).at? (· = '\'') = true :=
      Cursor.at?_eq_of_at?_ne hended (Cursor.at?_skipRun _ _)
    have hquote : F.cut < (c.next.skipRun (· ≠ '\'')).rest.length :=
      Nat.lt_of_le_of_lt hcut (Cursor.length_next_lt hmark)
    have hlt := Nat.lt_trans hquote
      (Nat.lt_of_le_of_lt (Cursor.length_skipRun_le _ _) (Cursor.length_next_lt hat))
    obtain ⟨hrun, hskip⟩ := F.run_cursor (Nat.le_of_lt hquote) fun _ => hquote
    have hended' : ¬(F.cursor (c.next.skipRun (· ≠ '\''))).rest = [] :=
      Checked.ne_nil_of_at? ((F.at?_cursor hquote _).trans hmark)
    refine ⟨hlt, ?_⟩
    unfold Cursor.stringOperand
    simp only [F.next_cursor hlt, hrun, hskip, if_neg hended', F.next_cursor hquote]

/-- **An operand is read** as it stands. -/
theorem operand_cursor (hok : c.operand = some (.ok (t, d))) (hcut : F.cut ≤ d.rest.length) :
    F.cut < c.rest.length ∧ (F.cursor c).operand = some (.ok (t, F.cursor d)) := by
  -- the four tests give the same answers as soon as the operand belongs to the beginning
  have hsame : F.cut < c.rest.length → (F.cursor c).operand =
      if c.at? (· = '$') then some (F.cursor c).registerOperand
      else if c.at? (· = '#') then some (F.cursor c).immediateOperand
      else if c.at? (· = '@') then some (F.cursor c).referenceOperand
      else if c.at? (· = '\'') then some (F.cursor c).stringOperand
      else none := by
    intro hlt
    unfold Cursor.operand
    rw [F.at?_cursor hlt, F.at?_cursor hlt, F.at?_cursor hlt, F.at?_cursor hlt]
  unfold Cursor.operand at hok
  split at hok
  · next hat =>
    obtain ⟨hlt, hread⟩ := F.registerOperand_cursor hat (Option.some.inj hok) hcut
    exact ⟨hlt, by rw [hsame hlt, if_pos hat, hread]⟩
  · next hregister =>
    split at hok
    · next hat =>
      obtain ⟨hlt, hread⟩ := F.immediateOperand_cursor hat (Option.some.inj hok) hcut
      exact ⟨hlt, by rw [hsame hlt, if_neg hregister, if_pos hat, hread]⟩
    · next himmediate =>
      split at hok
      · next hat =>
        obtain ⟨hlt, hread⟩ := F.referenceOperand_cursor hat (Option.some.inj hok) hcut
        exact ⟨hlt, by rw [hsame hlt, if_neg hregister, if_neg himmediate, if_pos hat, hread]⟩
      · next hreference =>
        split at hok
        · next hat =>
          obtain ⟨hlt, hread⟩ := F.stringOperand_cursor hat (Option.some.inj hok) hcut
          exact ⟨hlt, by
            rw [hsame hlt, if_neg hregister, if_neg himmediate, if_neg hreference, if_pos hat, hread]⟩
        · exact absurd hok (by simp)

/-- Where no operand stands, none is read. -/
theorem operand_cursor_of_none (hnone : c.operand = none) (h : F.cut < c.rest.length) :
    (F.cursor c).operand = none := by
  rw [Cursor.operand_eq_none_iff] at hnone ⊢
  rw [F.at?_cursor h, F.at?_cursor h, F.at?_cursor h, F.at?_cursor h]
  exact hnone

/-- **Operands are read** as they stand.  No operand is taken from what follows the beginning. -/
theorem operands_cursor (limit : Nat) : ∀ {c : Cursor} {ts : List Token},
    Cursor.operands limit c = .ok (ts, d) → F.cut ≤ d.rest.length →
      ∃ d', Cursor.operands limit (F.cursor c) = .ok (ts, d') ∧
        d'.skipGap = (F.cursor d).skipGap := by
  induction limit with
  | zero =>
      intro c ts hok _
      obtain ⟨rfl, rfl⟩ := Prod.mk.inj (Except.ok.inj hok)
      exact ⟨F.cursor c, rfl, rfl⟩
  | succ limit ih =>
      intro c ts hok hcut
      unfold Cursor.operands at hok
      split at hok
      · next hnone =>
        obtain ⟨rfl, rfl⟩ := Prod.mk.inj (Except.ok.inj hok)
        have hnone' : (F.cursor c).skipGap.operand = none := by
          rcases Nat.lt_or_eq_of_le hcut with hlt | heq
          · rw [F.skipGap_cursor_of_lt hlt]
            exact F.operand_cursor_of_none hnone hlt
          · -- the gap goes on behind the beginning, where no operand follows
            rw [F.skipGap_cursor hcut]
            unfold cursor
            rw [F.rest_of_length heq.symm]
            exact F.tail_operand _
        refine ⟨(F.cursor c).skipGap, ?_, ?_⟩
        · unfold Cursor.operands
          rw [hnone']
        · rw [Cursor.skipGap_skipGap, F.skipGap_cursor hcut]
      · exact absurd hok (by simp)
      · next t after hoperand =>
        split at hok
        · exact absurd hok (by simp)
        · next us final hrest =>
          obtain ⟨rfl, rfl⟩ := Prod.mk.inj (Except.ok.inj hok)
          obtain ⟨hlt, hread⟩ :=
            F.operand_cursor hoperand (Nat.le_trans hcut (Cursor.length_operands_le hrest))
          obtain ⟨d', hoperands, hgap⟩ := ih hrest hcut
          refine ⟨d', ?_, hgap⟩
          unfold Cursor.operands
          rw [F.skipGap_cursor_of_lt hlt, hread]
          simp only [hoperands]

/-! ## §6. Records. -/

/-- **A head is read** as it stands. -/
theorem head_cursor {label : Option Bytes} (hok : Cursor.head label c = .ok (t, d))
    (hcut : F.cut ≤ d.rest.length) : Cursor.head label (F.cursor c) = .ok (t, F.cursor d) := by
  have hlt : F.cut < c.rest.length := Nat.lt_of_le_of_lt hcut (Cursor.length_head_lt hok)
  unfold Cursor.head at hok ⊢
  rw [F.at?_cursor hlt, F.at?_cursor hlt]
  split at hok
  · next hdot =>
    rw [if_pos hdot, F.next_cursor hlt]
    split at hok
    · next hstart =>
      obtain ⟨rfl, rfl⟩ := Prod.mk.inj (Except.ok.inj hok)
      obtain ⟨hname, hskip⟩ := F.name_cursor hcut
      rw [F.at?_cursor (Nat.lt_of_le_of_lt hcut (Cursor.length_skipName_lt hstart)), if_pos hstart, hname,
          hskip]
    · exact absurd hok (by simp)
  · next hdot =>
    rw [if_neg hdot]
    split at hok
    · next hstart =>
      rw [if_pos hstart]
      cases hlookup : Opcode.lookup? c.name with
      | none =>
          rw [hlookup] at hok
          exact absurd hok (by simp)
      | some op =>
          rw [hlookup] at hok
          obtain ⟨rfl, rfl⟩ := Prod.mk.inj (Except.ok.inj hok)
          obtain ⟨hname, hskip⟩ := F.name_cursor hcut
          rw [hname, hlookup, hskip]
    · split at hok <;> exact absurd hok (by simp)

/-- **A label is found** as it stands; the gap after it may go on in what follows the beginning. -/
theorem label_cursor_of_some {name : Bytes} (hlabel : c.label = (some name, d))
    (hcut : F.cut ≤ d.rest.length) : (F.cursor c).label = (some name, (F.cursor d).skipGap) := by
  unfold Cursor.label at hlabel ⊢
  split at hlabel
  · next hat =>
    obtain ⟨hname, rfl⟩ := Prod.mk.inj hlabel
    rw [Bool.and_eq_true] at hat
    have hnext := Nat.le_trans hcut (Cursor.length_skipGap_le _)
    have hcolon := Nat.lt_of_le_of_lt hnext (Cursor.length_next_lt hat.2)
    have hlt := Nat.lt_trans hcolon (Cursor.length_skipName_lt hat.1)
    obtain ⟨hsame, hskip⟩ := F.name_cursor (Nat.le_of_lt hcolon)
    rw [F.at?_cursor hlt, hskip, F.at?_cursor hcolon, hat.1, hat.2, hsame, hname,
        F.next_cursor hcolon, F.skipGap_cursor hcut]
    rfl
  · exact absurd hlabel (by simp)

/-- That there is none is found if the name belongs to the beginning: a newline is no colon. -/
theorem label_cursor_of_none (hlabel : c.label.1 = none) (h : F.cut < c.rest.length)
    (hcut : F.cut ≤ c.skipName.rest.length) : (F.cursor c).label = (none, F.cursor c) := by
  unfold Cursor.label at hlabel ⊢
  split at hlabel
  · exact absurd hlabel (by simp)
  · next hat =>
    refine if_neg ?_
    rw [Bool.and_eq_true] at hat ⊢
    rintro ⟨hstart, hcolon⟩
    rw [F.at?_cursor h] at hstart
    have hnone : c.skipName.at? (· = ':') = false := by
      rw [← Bool.not_eq_true]
      exact fun hcolon => hat ⟨hstart, hcolon⟩
    rw [(F.name_cursor hcut).2, F.at?_cursor_of_newline hcut (by decide), hnone] at hcolon
    · exact absurd hcolon Bool.false_ne_true
    · intro hsome
      exact absurd (hnone.symm.trans hsome) Bool.false_ne_true

/-- So a label, or that there is none, is found in front of a head. -/
theorem label_cursor (hhead : Cursor.head c.label.1 c.label.2 = .ok (t, d))
    (hcut : F.cut ≤ d.rest.length) : (F.cursor c).label = (c.label.1, F.cursor c.label.2) := by
  have hlt : F.cut < c.label.2.rest.length := Nat.lt_of_le_of_lt hcut (Cursor.length_head_lt hhead)
  rcases Cursor.label_cases c with hnone | ⟨name, x, hsome⟩
  · rw [hnone] at hhead hlt ⊢
    exact F.label_cursor_of_none (by rw [hnone]) hlt
      (Nat.le_trans hcut (Cursor.length_head_le_skipName hhead))
  · rw [hsome] at hlt ⊢
    rw [F.label_cursor_of_some hsome (Nat.le_of_lt hlt), ← F.skipGap_cursor (Nat.le_of_lt hlt),
        F.skipGap_cursor_of_lt hlt]

/-- **A record is read** as it stands, and the gap after it is that after the same record outside. -/
theorem record_cursor {r : Record} (hok : c.record = .ok (r, d)) (hcut : F.cut ≤ d.rest.length) :
    ∃ d', (F.cursor c).record = .ok (F.record r, d') ∧ d'.skipGap = (F.cursor d).skipGap := by
  obtain ⟨t, after, ts, hhead, hoperands, rfl⟩ := Cursor.record_eq_ok hok
  have hafter := Nat.le_trans hcut (Cursor.length_operands_le hoperands)
  obtain ⟨d', hread, hgap⟩ := F.operands_cursor Cursor.maxOperands hoperands hcut
  refine ⟨d', ?_, hgap⟩
  exact Cursor.record_of_operands (F.label_cursor hhead hafter) (F.head_cursor hhead hafter) hread

end

/-! ## §7. All records. -/

/-- **All records of the beginning are read** as they stand, and reading goes on from where the same
records lead to outside. -/
theorem records_cursor {q : List Record} (h : Cursor.ReadsOn c q d) (hcut : F.cut ≤ d.rest.length) :
    ∀ before : Array Record, (F.cursor c).records before =
      (F.cursor d).records (before ++ (q.map F.record).toArray) := by
  induction h with
  | done c =>
      intro before
      rw [List.map_nil, Array.append_empty]
  | @record c after d r q hrecord hrest ih =>
      intro before
      have hafter := Nat.le_trans hcut hrest.length_le
      have hlt := Nat.lt_of_le_of_lt hafter (Cursor.length_record_lt hrecord)
      obtain ⟨after', hread, hgap⟩ := F.record_cursor hrecord hafter
      rw [← F.skipGap_cursor_of_lt hlt] at hread
      rw [Cursor.records_of_record hread, Cursor.records_of_skipGap_eq hgap, ih hcut]
      congr 1
      simp

end Frame

end Quartet
