/-
  Quartet.Proofs.Image.Strings
  ────────────────────────────
  **THE STRINGS IN A DATA SEGMENT.**

  A listing walks over the data of an image from string to string.  All it has to go by are the zero
  bytes: strings may be empty, and the last one may end with the data instead.

    • `Image.Visits` — the walk, one string at a time,
    • `Image.data_induction` — data are empty, or a string alone, or a string, a zero byte and more,
    • `Image.visits_iff` — the walk comes to an end and has then visited `Image.stringsFrom`,
    • `Image.terminated_stringsFrom`, `Image.position_of_stringsFrom` — with a zero byte after each,
      the strings are the data again, and every position is where its string is.
-/
import Mathlib.Data.List.TakeWhile
import Quartet.Image

namespace Quartet

namespace Image

/-! ## §1. The walk. -/

/-- A walk over data from a position on, with the strings it visits and their positions.  A walk goes
from a string to the position behind its zero byte, until it has left the data. -/
inductive Visits (data : Bytes) : Nat → List (Nat × Bytes) → Prop
  /-- The walk has left the data. -/
  | done {pos : Nat} (hend : data.length ≤ pos) : Visits data pos []
  /-- The walk visits the string at its position. -/
  | visit {pos : Nat} {s : Bytes} {later : List (Nat × Bytes)} (hpos : pos < data.length)
      (hs : stringAt? data pos = some s) (hlater : Visits data (pos + s.length + 1) later) :
      Visits data pos ((pos, s) :: later)

/-- The strings that were visited, with a zero byte after each. -/
def terminated (visited : List (Nat × Bytes)) : Bytes := visited.flatMap fun v => v.2 ++ [0]

theorem terminated_cons (v : Nat × Bytes) (visited : List (Nat × Bytes)) :
    terminated (v :: visited) = v.2 ++ [0] ++ terminated visited :=
  List.flatMap_cons

/-- A walk can go one way only. -/
theorem Visits.unique {data : Bytes} {pos : Nat} {visited other : List (Nat × Bytes)}
    (h : Visits data pos visited) (h' : Visits data pos other) : visited = other := by
  induction h generalizing other with
  | done hend =>
      cases h' with
      | done _ => rfl
      | visit hpos _ _ => omega
  | visit hpos hs _ ih =>
      cases h' with
      | done hend => omega
      | visit _ hs' hlater' =>
          obtain rfl := Option.some.inj (hs.symm.trans hs')
          rw [ih hlater']

/-! ## §2. One string. -/

theorem untilZero_of_not_mem {s : Bytes} (hs : 0 ∉ s) : untilZero s = s := by
  apply List.takeWhile_eq_self_iff.mpr
  intro b hb
  exact decide_eq_true fun hzero => hs (hzero ▸ hb)

/-- What stands behind a zero byte does not belong to the string. -/
theorem untilZero_append_zero (s rest : Bytes) : untilZero (s ++ 0 :: rest) = untilZero s := by
  have hzero : (0 :: rest).takeWhile (fun b => decide (b ≠ 0)) = [] :=
    List.takeWhile_cons_of_neg (by decide)
  unfold untilZero
  rw [List.takeWhile_append, hzero]
  split
  · next hlength =>
    rw [List.append_nil]
    exact ((List.takeWhile_prefix _).eq_of_length hlength).symm
  · rfl

/-- The string behind some bytes of the data. -/
theorem stringAt?_append (front rest : Bytes) :
    stringAt? (front ++ rest) front.length = some (untilZero rest) := by
  unfold stringAt?
  rw [if_pos (by rw [List.length_append]; omega), Int.toNat_natCast, List.drop_left]

theorem stringsFrom_nil (offset : Nat) : stringsFrom offset [] = [] := by
  rw [stringsFrom, if_pos rfl]

/-- A string without a zero byte ends with the data. -/
theorem stringsFrom_last {s : Bytes} (hne : s ≠ []) (hs : 0 ∉ s) (offset : Nat) :
    stringsFrom offset s = [(offset, s)] := by
  rw [stringsFrom, if_neg hne, untilZero_of_not_mem hs, List.drop_eq_nil_of_le (Nat.le_succ _),
    stringsFrom_nil]

/-- A string with its zero byte is followed by the strings behind it. -/
theorem stringsFrom_more {s : Bytes} (hs : 0 ∉ s) (rest : Bytes) (offset : Nat) :
    stringsFrom offset (s ++ 0 :: rest) = (offset, s) :: stringsFrom (offset + s.length + 1) rest := by
  have hne : s ++ 0 :: rest ≠ [] := by simp
  have hrest : (s ++ 0 :: rest).drop (s.length + 1) = rest := by
    rw [List.drop_append]
    simp
  rw [stringsFrom, if_neg hne, untilZero_append_zero, untilZero_of_not_mem hs, hrest]

/-! ## §3. All strings. -/

/-- **Induction over data, string by string.** -/
@[elab_as_elim]
theorem data_induction {motive : Bytes → Prop} (nil : motive [])
    (last : ∀ s, s ≠ [] → 0 ∉ s → motive s)
    (more : ∀ s rest, 0 ∉ s → motive rest → motive (s ++ 0 :: rest)) (data : Bytes) : motive data := by
  induction hlength : data.length using Nat.strongRecOn generalizing data with
  | ind n ih =>
      by_cases hmem : 0 ∈ data
      · -- the string ends at the first zero byte
        obtain ⟨s, rest, rfl, hs⟩ := List.eq_append_cons_of_mem hmem
        refine more s rest hs (ih rest.length ?_ rest rfl)
        rw [← hlength, List.length_append, List.length_cons]
        omega
      · by_cases hne : data = []
        · rw [hne]
          exact nil
        · exact last data hne hmem

/-- **The walk comes to an end**, whatever the data. -/
theorem visits_stringsFrom (data : Bytes) :
    ∀ front : Bytes, Visits (front ++ data) front.length (stringsFrom front.length data) := by
  induction data using data_induction with
  | nil =>
      intro front
      rw [stringsFrom_nil]
      refine Visits.done ?_
      simp
  | last s hne hs =>
      intro front
      have hpos : 0 < s.length := List.length_pos_iff.mpr hne
      rw [stringsFrom_last hne hs]
      refine Visits.visit ?_ ?_ (Visits.done ?_)
      · rw [List.length_append]
        omega
      · rw [stringAt?_append, untilZero_of_not_mem hs]
      · rw [List.length_append]
        omega
  | more s rest hs ih =>
      intro front
      -- the walk goes on behind the zero byte, where the rest begins
      have hlater := ih (front ++ s ++ [0])
      have hlength : (front ++ s ++ [0]).length = front.length + s.length + 1 := by
        rw [List.length_append, List.length_append]
        rfl
      have hdata : front ++ s ++ [0] ++ rest = front ++ (s ++ 0 :: rest) := by simp
      rw [hlength, hdata] at hlater
      rw [stringsFrom_more hs]
      refine Visits.visit ?_ ?_ hlater
      · rw [List.length_append, List.length_append, List.length_cons]
        omega
      · rw [stringAt?_append, untilZero_append_zero, untilZero_of_not_mem hs]

/-- The walk over the data of an image visits its strings, and nothing else can be visited. -/
theorem visits_iff (img : Image) (visited : List (Nat × Bytes)) :
    Visits img.data 0 visited ↔ visited = img.strings := by
  have hstrings : Visits img.data 0 img.strings := visits_stringsFrom img.data []
  constructor
  · intro h
    exact h.unique hstrings
  · intro h
    rw [h]
    exact hstrings

/-- **With a zero byte after each, the strings are the data again**; if the data did not end in a zero
byte, there is one more. -/
theorem terminated_stringsFrom (data : Bytes) :
    ∀ offset, terminated (stringsFrom offset data) =
      if data = [] ∨ data.getLast? = some 0 then data else data ++ [0] := by
  induction data using data_induction with
  | nil =>
      intro offset
      rw [stringsFrom_nil, if_pos (Or.inl rfl)]
      rfl
  | last s hne hs =>
      intro offset
      have hend : ¬(s = [] ∨ s.getLast? = some 0) := by
        rintro (hnil | hzero)
        · exact hne hnil
        · exact hs (List.mem_of_getLast? hzero)
      rw [stringsFrom_last hne hs, if_neg hend]
      exact List.append_nil _
  | more s rest hs ih =>
      intro offset
      have hcons : terminated (stringsFrom offset (s ++ 0 :: rest)) =
          s ++ [0] ++ terminated (stringsFrom (offset + s.length + 1) rest) := by
        rw [stringsFrom_more hs, terminated_cons]
      -- the data end as the rest does, or at this zero byte if there is no rest
      have hend : (s ++ 0 :: rest = [] ∨ (s ++ 0 :: rest).getLast? = some 0) ↔
          (rest = [] ∨ rest.getLast? = some 0) := by
        rw [List.getLast?_append]
        cases rest with
        | nil => simp
        | cons b rest => simp [List.getLast?_cons_cons]
      rw [hcons, ih, List.append_assoc]
      by_cases hrest : rest = [] ∨ rest.getLast? = some 0
      · rw [if_pos hrest, if_pos (hend.mpr hrest)]
        rfl
      · rw [if_neg hrest, if_neg fun h => hrest (hend.mp h)]
        simp

/-- **Every position is where its string is** among the strings with their zero bytes. -/
theorem position_of_stringsFrom (data : Bytes) :
    ∀ (offset : Nat) (before after : List (Nat × Bytes)) (pos : Nat) (s : Bytes),
      stringsFrom offset data = before ++ (pos, s) :: after →
      pos = offset + (terminated before).length := by
  induction data using data_induction with
  | nil =>
      intro offset before after pos s h
      rw [stringsFrom_nil] at h
      exact absurd h.symm (by simp)
  | last t hne ht =>
      intro offset before after pos s h
      rw [stringsFrom_last hne ht] at h
      cases before with
      | nil =>
          simp only [List.nil_append, List.cons.injEq, Prod.mk.injEq] at h
          exact h.1.1.symm
      | cons v before => exact absurd h (by simp)
  | more t rest ht ih =>
      intro offset before after pos s h
      rw [stringsFrom_more ht] at h
      cases before with
      | nil =>
          simp only [List.nil_append, List.cons.injEq, Prod.mk.injEq] at h
          exact h.1.1.symm
      | cons v before =>
          simp only [List.cons_append, List.cons.injEq] at h
          obtain ⟨rfl, hlater⟩ := h
          have hpos := ih _ _ _ _ _ hlater
          have hlength : (terminated ((offset, t) :: before)).length =
              t.length + 1 + (terminated before).length := by
            rw [terminated_cons, List.length_append, List.length_append]
            rfl
          omega

end Image

end Quartet
