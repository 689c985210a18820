/-
  Quartet.Proofs.Session.Truncation
  ─────────────────────────────────
  **A SESSION WITHOUT ROOM IS A SESSION CUT SHORT.**

  All lines print to one writer, and what a line does never depends on how that fares.  So a session on
  storage with a limit goes the same way as one without, line by line, up to the line whose output does
  not fit:

    • `Transcript.add_of_unlimited`, `Transcript.add_of_fits`, `Transcript.add_of_full` — what one
      line leaves in a transcript, by the room there is,
    • `Transcript.Whole.handle` — without a limit all that the lines wrote stands in storage,
    • `Transcript.truncates_handle` — two transcripts that go on from the same point,
    • `converse_truncated` — whole sessions.
-/
import Quartet.Proofs.Output.Truncation
import Quartet.Proofs.Session.Replies

namespace Quartet

/-! ## §1. What a session leaves, in full and cut short. -/

/-- What a line did, apart from what it wrote: the line, and the session after it. -/
def Handled.effect (h : Handled) : Bytes × Session := (h.line, h.after)

/-- The number of bytes that lines wrote together. -/
def Handled.total (hs : List Handled) : Nat := (hs.flatMap Handled.output).length

namespace Transcript

/-- `cut` stops right after the first line of `full` whose output does not fit. -/
structure StopsShort (limit : Nat) (cut full : Transcript) (before : List Handled) (h : Handled) :
    Prop where
  /-- It is the next line of `full` after those before it. -/
  next : before ++ [h] <+: full.handled.toList
  /-- The lines before it were handled with all their output, and then this one. -/
  handled : cut.handled.toList =
    before ++ [{ h with output := h.output.take (limit - Handled.total before) }]
  /-- What the lines before it wrote fits. -/
  fits : Handled.total before ≤ limit
  /-- What it writes does not fit any more. -/
  full : limit < Handled.total (before ++ [h])
  /-- Its effect on the session is complete. -/
  session : cut.session = h.after
  /-- The session ends for that reason. -/
  ending : cut.ending.message? = some (ascii "write failed: disk full")

/-- `cut` is `full` as far as `limit` bytes of output go. -/
structure Truncates (limit : Nat) (cut full : Transcript) : Prop where
  /-- The lines handled are the first of those that are handled in full, with the same effects. -/
  effects : cut.handled.toList.map Handled.effect <+: full.handled.toList.map Handled.effect
  /-- The bytes written are the first of those that are written in full. -/
  written : cut.store.stored.toList =
    full.store.stored.toList.take (min limit full.store.stored.size)
  /-- Either all went the same way, or the session stopped at the first line that did not fit. -/
  ends : full.store.stored.size ≤ limit ∧ cut.handled = full.handled ∧ cut.session = full.session ∧
      cut.entries = full.entries ∧ cut.ending = full.ending ∨
    limit < full.store.stored.size ∧ ∃ before h, StopsShort limit cut full before h

/-! ## §2. One line. -/

theorem toList_extract_append (stored : Array UInt8) (bs : Bytes) :
    ((stored ++ bs).extract stored.size (stored ++ bs).size).toList = bs := by
  rw [Array.toList_extract, List.extract_eq_take_drop, Array.toList_appendList,
      Store.size_appendList, ← Array.length_toList, List.drop_left]
  exact List.take_of_length_le (by omega)

/-- A writer that has not failed writes like its storage. -/
theorem writeAll_out {t : Transcript} (h : t.out.failure = none) (pieces : List Bytes) :
    t.out.writeAll Store.device pieces = t.store.print pieces := by
  unfold Store.print store
  rw [← h]

/-- Without a limit the whole output is written. -/
theorem add_of_unlimited {t : Transcript} (hworks : t.out.failure = none)
    (h : t.store.limit = none) (line : Bytes) (r : Reply) :
    t.add line r =
      { session := r.session
        out := { state := { t.store with stored := t.store.stored ++ r.output.flatten } }
        handled := t.handled.push ⟨line, r.output.flatten, r.session⟩
        entries := t.entries ++ r.entries } := by
  unfold add record Console.after console
  rw [writeAll_out hworks, Store.print_of_unlimited r.output t.store h]
  simp only [toList_extract_append, List.nil_append]

/-- Nor is it different with a limit that is not reached. -/
theorem add_of_fits {t : Transcript} {limit : Nat} (hworks : t.out.failure = none)
    (h : t.store.limit = some (limit : Int)) {r : Reply}
    (hfits : t.store.stored.size + r.output.flatten.length ≤ limit) (line : Bytes) :
    t.add line r =
      { session := r.session
        out := { state := { t.store with stored := t.store.stored ++ r.output.flatten } }
        handled := t.handled.push ⟨line, r.output.flatten, r.session⟩
        entries := t.entries ++ r.entries } := by
  unfold add record Console.after console
  rw [writeAll_out hworks, Store.print_of_limit r.output t.store h (by omega), if_pos hfits,
      List.take_of_length_le (by omega)]
  simp only [toList_extract_append, List.nil_append]

/-- What does not fit is cut off, and that ends the session; the effect of the line is complete. -/
theorem add_of_full {t : Transcript} {limit : Nat} (hworks : t.out.failure = none)
    (h : t.store.limit = some (limit : Int)) (hroom : t.store.stored.size ≤ limit) {r : Reply}
    (hfull : ¬t.store.stored.size + r.output.flatten.length ≤ limit) (line : Bytes) :
    t.add line r =
      { session := r.session
        out :=
          { state := { t.store with
              stored := t.store.stored ++ r.output.flatten.take (limit - t.store.stored.size) }
            failure := some .full }
        handled := t.handled.push
          ⟨line, r.output.flatten.take (limit - t.store.stored.size), r.session⟩
        entries := t.entries ++ r.entries
        ending := .writeFailed .full } := by
  unfold add record Console.after console
  rw [writeAll_out hworks, Store.print_of_limit r.output t.store h hroom, if_neg hfull]
  simp only [toList_extract_append, List.nil_append]

/-! ## §3. All lines. -/

/-- Nothing has failed, there is no limit, and what the lines wrote is what stands in storage. -/
structure Whole (t : Transcript) : Prop where
  /-- Nothing has failed. -/
  works : t.out.failure = none
  /-- There is no limit. -/
  limit : t.store.limit = none
  /-- What the lines wrote stands in storage. -/
  stored : t.store.stored.toList = t.handled.toList.flatMap Handled.output

theorem Whole.size {t : Transcript} (h : t.Whole) :
    t.store.stored.size = Handled.total t.handled.toList := by
  rw [← Array.length_toList, h.stored]
  rfl

theorem Whole.add {t : Transcript} (h : t.Whole) (line : Bytes) (r : Reply) :
    (t.add line r).Whole := by
  rw [add_of_unlimited h.works h.limit]
  refine ⟨rfl, h.limit, ?_⟩
  show (t.store.stored ++ r.output.flatten).toList =
    (t.handled.push ⟨line, r.output.flatten, r.session⟩).toList.flatMap Handled.output
  rw [Array.toList_appendList, h.stored, Array.toList_push, List.flatMap_append]
  simp

theorem Whole.handle {host : Host} {last : Ending} (lines : List Bytes) :
    ∀ {t : Transcript}, t.Whole → (handle host last t lines).Whole := by
  induction lines with
  | nil => exact fun h => ⟨h.works, h.limit, h.stored⟩
  | cons line rest ih =>
      intro t h
      have hadd := h.add line (t.session.reply host line)
      by_cases hstop : (t.session.reply host line).quit ∨
          (t.add line (t.session.reply host line)).ending ≠ .done
      · rw [handle_of_stop hstop]
        exact hadd
      · rw [handle_of_done hstop]
        exact ih hadd

theorem toList_handled_add (t : Transcript) (line : Bytes) (r : Reply) :
    t.handled.toList <+: (t.add line r).handled.toList := by
  show _ <+: (t.handled.push _).toList
  rw [Array.toList_push]
  exact List.prefix_append _ _

/-- A line that was handled stays handled. -/
theorem toList_handled_handle {host : Host} {last : Ending} (lines : List Bytes) :
    ∀ t : Transcript, t.handled.toList <+: (handle host last t lines).handled.toList := by
  induction lines with
  | nil => exact fun _ => List.prefix_refl _
  | cons line rest ih =>
      intro t
      have hadd := toList_handled_add t line (t.session.reply host line)
      by_cases hstop : (t.session.reply host line).quit ∨
          (t.add line (t.session.reply host line)).ending ≠ .done
      · rw [handle_of_stop hstop]
        exact hadd
      · rw [handle_of_done hstop]
        exact hadd.trans (ih _)

/-- Of several lines the first is handled, whatever comes after it. -/
theorem toList_handled_handle_cons {host : Host} {last : Ending} (t : Transcript)
    (line : Bytes) (rest : List Bytes) :
    (t.add line (t.session.reply host line)).handled.toList <+:
      (handle host last t (line :: rest)).handled.toList := by
  by_cases hstop : (t.session.reply host line).quit ∨
      (t.add line (t.session.reply host line)).ending ≠ .done
  · simp only [handle_of_stop hstop]
    exact List.prefix_refl _
  · rw [handle_of_done hstop]
    exact toList_handled_handle rest _

/-! ## §4. Two sessions side by side. -/

/-- The transcript with a limit on its storage. -/
def limited (t : Transcript) (limit : Nat) : Transcript :=
  { t with out := { t.out with state := { t.store with limit := some (limit : Int) } } }

variable {limit : Nat} {t final : Transcript}

/-- A limit that is not reached makes no difference. -/
theorem truncates_limited (hroom : t.store.stored.size ≤ limit) :
    Truncates limit (t.limited limit) t := by
  refine ⟨List.prefix_refl _, ?_, Or.inl ⟨hroom, rfl, rfl, rfl, rfl⟩⟩
  rw [Nat.min_eq_right hroom, ← Array.length_toList, List.take_length]
  rfl

/-- A line whose output fits is handled in the same way. -/
theorem add_limited (hwhole : t.Whole) {line : Bytes} {r : Reply}
    (hfits : t.store.stored.size + r.output.flatten.length ≤ limit) :
    (t.limited limit).add line r = (t.add line r).limited limit := by
  rw [add_of_unlimited hwhole.works hwhole.limit,
    add_of_fits (t := t.limited limit) hwhole.works rfl hfits]
  rfl

/-- A line whose output does not fit ends one session, and the other goes on in any way. -/
theorem truncates_of_full (hwhole : t.Whole) (hroom : t.store.stored.size ≤ limit) {line : Bytes}
    {r : Reply} (hfull : ¬t.store.stored.size + r.output.flatten.length ≤ limit)
    (hfinal : final.Whole) (hgrows : (t.add line r).handled.toList <+: final.handled.toList) :
    Truncates limit ((t.limited limit).add line r) final := by
  rw [add_of_full (t := t.limited limit) hwhole.works rfl hroom hfull]
  rw [add_of_unlimited hwhole.works hwhole.limit] at hgrows
  change (t.handled.push _).toList <+: _ at hgrows
  rw [Array.toList_push] at hgrows
  -- the whole output: what was there, what this line writes, what comes after it
  obtain ⟨rest, hrest⟩ := hgrows
  have hstored : final.store.stored.toList = t.store.stored.toList ++
      (r.output.flatten ++ rest.flatMap Handled.output) := by
    rw [hfinal.stored, ← hrest, hwhole.stored, List.flatMap_append, List.flatMap_append]
    simp
  have hsize : limit < final.store.stored.size := by
    rw [← Array.length_toList, hstored, List.length_append, List.length_append,
        Array.length_toList]
    omega
  refine ⟨?_, ?_, Or.inr ⟨hsize, t.handled.toList, ⟨line, r.output.flatten, r.session⟩,
    ⟨rest, hrest⟩, ?_, ?_, ?_, rfl, rfl⟩⟩
  · show (t.handled.push _).toList.map Handled.effect <+: _
    rw [← hrest, Array.toList_push, List.map_append, List.map_append, List.map_append]
    exact List.prefix_append _ _
  · show (t.store.stored ++ r.output.flatten.take (limit - t.store.stored.size)).toList = _
    have hkept : t.store.stored.toList.take limit = t.store.stored.toList :=
      List.take_of_length_le (by rw [Array.length_toList]; exact hroom)
    rw [Nat.min_eq_left (Nat.le_of_lt hsize), hstored, Array.toList_appendList, List.take_append,
        hkept, Array.length_toList, List.take_append_of_le_length (by omega)]
  · show (t.handled.push _).toList = _
    rw [Array.toList_push, ← hwhole.size]
    rfl
  · rw [← hwhole.size]
    exact hroom
  · have htotal : Handled.total (t.handled.toList ++ [⟨line, r.output.flatten, r.session⟩]) =
        t.store.stored.size + r.output.flatten.length := by
      rw [hwhole.size]
      unfold Handled.total
      simp
    omega

/-- **What follows goes the same way** as long as the output fits. -/
theorem truncates_handle {host : Host} {last : Ending} (lines : List Bytes) :
    ∀ {t : Transcript}, t.Whole → t.store.stored.size ≤ limit →
      Truncates limit (handle host last (t.limited limit) lines)
        (handle host last t lines) := by
  induction lines with
  | nil =>
      intro t _ hroom
      exact truncates_limited (t := { t with ending := last }) hroom
  | cons line rest ih =>
      intro t hwhole hroom
      by_cases hfits : t.store.stored.size +
          (t.session.reply host line).output.flatten.length ≤ limit
      · have hadd : (t.limited limit).add line ((t.limited limit).session.reply host line) =
            (t.add line (t.session.reply host line)).limited limit := add_limited hwhole hfits
        have hroom' : (t.add line (t.session.reply host line)).store.stored.size ≤ limit := by
          rw [add_of_unlimited hwhole.works hwhole.limit]
          show (t.store.stored ++ (t.session.reply host line).output.flatten).size ≤ limit
          rw [Store.size_appendList]
          exact hfits
        by_cases hstop : (t.session.reply host line).quit ∨
            (t.add line (t.session.reply host line)).ending ≠ .done
        · rw [handle_of_stop hstop, handle_of_stop (by rw [hadd]; exact hstop), hadd]
          exact truncates_limited hroom'
        · rw [handle_of_done hstop, handle_of_done (by rw [hadd]; exact hstop), hadd]
          exact ih (hwhole.add line _) hroom'
      · have hending :
            ((t.limited limit).add line ((t.limited limit).session.reply host line)).ending ≠
              .done := by
          show ((t.limited limit).add line (t.session.reply host line)).ending ≠ .done
          rw [add_of_full (t := t.limited limit) hwhole.works rfl hroom hfits]
          exact Ending.noConfusion
        rw [handle_of_stop (Or.inr hending)]
        exact truncates_of_full hwhole hroom hfits (hwhole.handle (line :: rest))
          (toList_handled_handle_cons t line rest)

end Transcript

/-- **A session on storage with room for `limit` bytes is a truncated copy of the session on storage
without a limit.** -/
theorem converse_truncated (s : Session) (host : Host) (input : Input) (limit : Nat) :
    Transcript.Truncates limit (s.converse host input { limit := some (limit : Int) })
      (s.converse host input {}) :=
  Transcript.truncates_handle (t := { session := s, out := { state := {} } }) _ ⟨rfl, rfl, rfl⟩
    (Nat.zero_le _)

end Quartet
