/-
  Quartet.Proofs.Source.Outcomes
  ──────────────────────────────
  **HOW READING ENDS.**

  A text is read record by record until it ends or a record is refused, and a record is refused at its
  head or at one of its operands.  This is said once, so that what holds along a text can be proved by
  induction on the records read:

    • `Cursor.ReadsOn` — records lead from one cursor to another,
    • `Cursor.records_outcome` — after them the text is at its end, or a record is refused,
    • `Cursor.RefusedAt` — where a record is refused,
    • `SyntaxProblem.Describes` — what stands at the place of a problem,
    • `Cursor.records_eq_error` — every error is about the token it stands at.
-/
import Quartet.Proofs.Access.Parser

namespace Quartet

open Checked

/-! ## §1. Records one after the other. -/

namespace Cursor

/-- Reading the records `q`, each after a gap, leads from one cursor to another. -/
inductive ReadsOn : Cursor → List Record → Cursor → Prop
  | done (c : Cursor) : ReadsOn c [] c
  | record {c after d : Cursor} {r : Record} {q : List Record}
      (hrecord : c.skipGap.record = .ok (r, after)) (hrest : ReadsOn after q d) :
      ReadsOn c (r :: q) d

section

variable {c d : Cursor} {q : List Record}

theorem ne_nil_of_record {r : Record} (h : c.record = .ok (r, d)) : c.rest ≠ [] := by
  intro hnil
  have hlt := length_record_lt h
  rw [hnil] at hlt
  exact absurd hlt (Nat.not_lt_zero _)

theorem ReadsOn.leads {src : Bytes} (h : ReadsOn c q d) (hwithin : Within src c) : Leads c d := by
  induction h with
  | done c => exact Leads.refl c
  | record hrecord _ ih =>
      have hafter := hwithin.leads_skipGap.trans
        ((reads_record hwithin.skipGap).leads _ _ hrecord)
      exact hafter.trans (ih (hwithin.leads hafter))

theorem records_of_record {r : Record} (hrecord : c.skipGap.record = .ok (r, d))
    (before : Array Record) : c.records before = d.records (before.push r) := by
  rw [records, if_neg (ne_nil_of_record hrecord)]
  split
  · next e he => exact absurd (hrecord.symm.trans he) (by simp)
  · next s after hs =>
    obtain ⟨rfl, rfl⟩ := Prod.mk.inj (Except.ok.inj (hrecord.symm.trans hs))
    rfl

theorem records_of_error {e : SyntaxError} (hne : c.skipGap.rest ≠ [])
    (hrecord : c.skipGap.record = .error e) (before : Array Record) :
    c.records before = .error e := by
  rw [records, if_neg hne]
  split
  · next e' he => rw [Except.error.inj (hrecord.symm.trans he)]
  · next s after hs => exact absurd (hrecord.symm.trans hs) (by simp)

/-- Records that are read come after those read before. -/
theorem ReadsOn.records_eq (h : ReadsOn c q d) :
    ∀ before : Array Record, c.records before = d.records (before ++ q.toArray) := by
  induction h with
  | done c =>
      intro before
      rw [Array.append_empty]
  | @record c after d r q hrecord _ ih =>
      intro before
      rw [records_of_record hrecord, ih]
      congr 1
      simp

/-- **A text is read record by record** until it ends or a record is refused. -/
theorem records_outcome (c : Cursor) (before : Array Record) :
    ∃ q d, ReadsOn c q d ∧
      (d.skipGap.rest = [] ∧ c.records before = .ok (before.toList ++ q) ∨
        d.skipGap.rest ≠ [] ∧ ∃ e, d.skipGap.record = .error e ∧ c.records before = .error e) := by
  induction c, before using records.induct with
  | case1 c before hend =>
      refine ⟨[], c, ReadsOn.done c, Or.inl ⟨hend, ?_⟩⟩
      rw [records, if_pos hend, List.append_nil]
  | case2 c before hne e he =>
      exact ⟨[], c, ReadsOn.done c, Or.inr ⟨hne, e, he, records_of_error hne he before⟩⟩
  | case3 c before hne r after hr ih =>
      obtain ⟨q, d, hreads, hend⟩ := ih
      refine ⟨r :: q, d, ReadsOn.record hr hreads, ?_⟩
      rw [records_of_record hr]
      simpa using hend

end

/-! ## §2. Where a record is refused. -/

/-- **Operands are refused at one of them**, when those before it are read. -/
theorem operands_eq_error {e : SyntaxError} : ∀ {limit : Nat} {c : Cursor},
    operands limit c = .error e →
      ∃ n k ts d, limit = n + (k + 1) ∧ operands n c = .ok (ts, d) ∧ ts.length = n ∧
        d.skipGap.operand = some (.error e) := by
  intro limit
  induction limit with
  | zero => exact fun h => absurd h (by simp [operands])
  | succ limit ih =>
      intro c h
      unfold operands at h
      split at h
      · exact absurd h (by simp)
      · next e' he =>
        obtain rfl := Except.error.inj h
        exact ⟨0, limit, [], c, by omega, rfl, rfl, he⟩
      · next t after hop =>
        split at h
        · next e' he =>
          obtain rfl := Except.error.inj h
          obtain ⟨n, k, ts, d, hlimit, hread, hlen, hrefused⟩ := ih he
          refine ⟨n + 1, k, t :: ts, d, by omega, ?_, by rw [List.length_cons, hlen], hrefused⟩
          unfold operands
          rw [hop]
          simp only [hread]
        · exact absurd h (by simp)

/-- A label, if there is one, and the gap behind it. -/
theorem label_cases (c : Cursor) :
    c.label = (none, c) ∨ ∃ name, ∃ x : Cursor, c.label = (some name, x.skipGap) := by
  unfold label
  split
  · exact Or.inr ⟨_, _, rfl⟩
  · exact Or.inl rfl

theorem record_of_operands {c x after d : Cursor} {label : Option Bytes} {t : Token}
    {ts : List Token} (hlabel : c.label = (label, x)) (hhead : head label x = .ok (t, after))
    (hoperands : operands maxOperands after = .ok (ts, d)) :
    c.record = .ok (⟨c.pos, label, t, ts⟩, d) := by
  unfold record
  rw [hlabel, hhead]
  simp only [hoperands]

/-- A record that is read has the label, the head and the operands that stand there. -/
theorem record_eq_ok {c d : Cursor} {r : Record} (h : c.record = .ok (r, d)) :
    ∃ t after ts, head c.label.1 c.label.2 = .ok (t, after) ∧
      operands maxOperands after = .ok (ts, d) ∧ r = ⟨c.pos, c.label.1, t, ts⟩ := by
  unfold record at h
  split at h
  · exact absurd h (by simp)
  · next t after hhead =>
    split at h
    · exact absurd h (by simp)
    · next ts final hoperands =>
      obtain ⟨rfl, rfl⟩ := Prod.mk.inj (Except.ok.inj h)
      exact ⟨t, after, ts, hhead, hoperands, rfl⟩

/-- Where the record at a cursor is refused: at its head, or at an operand after others. -/
inductive RefusedAt (c : Cursor) (e : SyntaxError) : Cursor → Prop
  | head (hhead : Cursor.head c.label.1 c.label.2 = .error e) : RefusedAt c e c.label.2
  | operand {t : Token} {after d : Cursor} {n k : Nat} {ts : List Token}
      (hhead : Cursor.head c.label.1 c.label.2 = .ok (t, after))
      (hlimit : maxOperands = n + (k + 1)) (hread : operands n after = .ok (ts, d))
      (hlen : ts.length = n) (hoperand : d.skipGap.operand = some (.error e)) :
      RefusedAt c e d.skipGap

/-- **A record is refused at its head or at an operand.** -/
theorem record_eq_error {c : Cursor} {e : SyntaxError} (h : c.record = .error e) :
    ∃ x, c.RefusedAt e x := by
  unfold record at h
  split at h
  · next e' hhead =>
    rw [Except.error.inj h] at hhead
    exact ⟨_, RefusedAt.head hhead⟩
  · next t after hhead =>
    split at h
    · next e' hoperands =>
      rw [Except.error.inj h] at hoperands
      obtain ⟨n, k, ts, d, hlimit, hread, hlen, hoperand⟩ := operands_eq_error hoperands
      exact ⟨_, RefusedAt.operand hhead hlimit hread hlen hoperand⟩
    · exact absurd h (by simp)

end Cursor

/-! ## §3. What stands at the place of a problem. -/

/-- A text that goes on with a minus sign, or with none. -/
def Signed (sign more : Bytes) : Prop :=
  sign = [asciiByte '-'] ∨ sign = [] ∧ Stops (· = '-') more

/-- The integer that decimal digits write after a sign. -/
def signedNumeral (sign : Bytes) (ds : List Char) : Int :=
  if sign = [] then numeralValue ds else -numeralValue ds

/-- **What a problem is about.**  The text starts with something that the problem names, and it goes
on in a way that makes this a problem. -/
def SyntaxProblem.Describes : SyntaxProblem → Bytes → Prop
  | .registerNumber, src => ∃ more, src = asciiByte '$' :: more ∧ Stops isAsciiDigit more
  | .registerRange digits, src =>
    ∃ ds more, digits = utf8 ds ∧ IsNumeral ds ∧ 255 < numeralValue ds ∧
      src = asciiByte '$' :: (digits ++ more) ∧ Stops isAsciiDigit more
  | .integer, src =>
    ∃ sign more, Signed sign more ∧ src = asciiByte '#' :: (sign ++ more) ∧ Stops isAsciiDigit more
  | .integerRange numeral, src =>
    ∃ sign ds more, numeral = sign ++ utf8 ds ∧ Signed sign (utf8 ds ++ more) ∧ IsNumeral ds ∧
      (signedNumeral sign ds < -0x80000000 ∨ 0x80000000 ≤ signedNumeral sign ds) ∧
      src = asciiByte '#' :: (numeral ++ more) ∧ Stops isAsciiDigit more
  | .labelName, src => ∃ more, src = asciiByte '@' :: more ∧ Stops isNameStart more
  | .unterminatedString, src => ∃ text, src = asciiByte '\'' :: text ∧ asciiByte '\'' ∉ text
  | .directiveName, src => ∃ more, src = asciiByte '.' :: more ∧ Stops isNameStart more
  | .unknownMnemonic name, src =>
    IsName name ∧ Opcode.lookup? name = none ∧ ∃ more, src = name ++ more ∧ Stops isNamePart more
  | .nothingAfterLabel _, src => Stops (· = '.') src ∧ Stops isNameStart src
  | .noRecord, src => src ≠ [] ∧ Stops (· = '.') src ∧ Stops isNameStart src

namespace Cursor

section

variable {c : Cursor} {src : Bytes} {e : SyntaxError}

theorem Before.unique {src' : Bytes} (h : c.Before src) (h' : c.Before src') : src = src' := by
  rw [← unread_glyphs src, ← unread_glyphs src', ← show c.rest = glyphs src from h,
      ← show c.rest = glyphs src' from h']

theorem stops_of_run_eq_nil (h : c.Before src) {p : Char → Bool} (hrun : c.run p = []) :
    Stops p src := by
  obtain ⟨src', hsrc, -, hstops⟩ := before_skipRun h p
  rw [hrun] at hsrc
  rw [hsrc]
  exact hstops

/-- Digits that are read stand in the text, and no digit follows them. -/
theorem before_digits (h : c.Before src) (hne : c.run isAsciiDigit ≠ []) :
    ∃ ds more, unread (c.run isAsciiDigit) = utf8 ds ∧ IsNumeral ds ∧
      digitsValue (c.run isAsciiDigit) = numeralValue ds ∧ src = utf8 ds ++ more ∧
        Stops isAsciiDigit more := by
  obtain ⟨ds, more, hds, hvalue, hsrc, hbefore⟩ := before_skipDigits h hne
  obtain ⟨more', hsrc', hbefore', hstops⟩ := before_skipRun h isAsciiDigit
  obtain rfl := hbefore.unique hbefore'
  exact ⟨ds, more, List.append_cancel_right (hsrc'.symm.trans hsrc), hds, hvalue, hsrc, hstops⟩

/-- An error at a cursor, about what stands there. -/
def Refuses (c : Cursor) (src : Bytes) (e : SyntaxError) : Prop :=
  ∃ p : SyntaxProblem, e = c.problem p ∧ p.Describes src

theorem refuses_registerOperand (h : c.Before src) (hat : c.at? (· = '$') = true)
    (herror : c.registerOperand = .error e) : c.Refuses src e := by
  obtain ⟨mid, rfl, hmid⟩ := before_next_of_at?_mark h (by decide) hat
  unfold registerOperand at herror
  simp only at herror
  by_cases hdigits : c.next.run isAsciiDigit = []
  · rw [if_pos hdigits] at herror
    exact ⟨_, (Except.error.inj herror).symm, mid, rfl, stops_of_run_eq_nil hmid hdigits⟩
  · rw [if_neg hdigits] at herror
    obtain ⟨ds, more, hunread, hds, hvalue, rfl, hstops⟩ := before_digits hmid hdigits
    by_cases hrange : 255 < digitsValue (c.next.run isAsciiDigit)
    · rw [if_pos hrange] at herror
      refine ⟨_, (Except.error.inj herror).symm, ds, more, hunread, hds, hvalue ▸ hrange, ?_, hstops⟩
      rw [hunread]
    · rw [if_neg hrange] at herror
      exact absurd herror (by simp)

/-- A sign that is read, or that there is none. -/
theorem before_skipSign (h : c.Before src) :
    ∃ more, src = unread c.sign ++ more ∧ c.skipSign.Before more ∧ Signed (unread c.sign) more ∧
      (unread c.sign = [] ↔ c.sign = []) := by
  unfold skipSign
  by_cases hsign : c.sign = []
  · rw [if_pos hsign, hsign]
    exact ⟨src, rfl, h, Or.inr ⟨rfl, (at?_eq_false_iff h).mp (sign_eq_nil_iff.mp hsign)⟩, by simp⟩
  · have hminus : c.at? (· = '-') = true := by rwa [sign_eq_nil_iff, Bool.not_eq_false] at hsign
    obtain ⟨more, rfl, hnext⟩ := before_next_of_at?_mark h (by decide) hminus
    -- the sign is the one glyph that the cursor moves past
    have hglyph : c.sign = [Glyph.ofChar '-'] := by
      unfold sign
      rw [show c.rest = _ from h, glyphs_asciiByte_cons (by decide)]
      rfl
    rw [if_neg hsign, hglyph]
    exact ⟨more, rfl, hnext, Or.inl rfl, by simp [Glyph.ofChar, unread]⟩

theorem refuses_immediateOperand (h : c.Before src) (hat : c.at? (· = '#') = true)
    (herror : c.immediateOperand = .error e) : c.Refuses src e := by
  obtain ⟨mid, rfl, hmid⟩ := before_next_of_at?_mark h (by decide) hat
  obtain ⟨rest, hsigned, hrest, hsign, hnil⟩ := before_skipSign hmid
  unfold immediateOperand at herror
  simp only at herror
  by_cases hdigits : c.next.skipSign.run isAsciiDigit = []
  · rw [if_pos hdigits] at herror
    refine ⟨_, (Except.error.inj herror).symm, unread c.next.sign, rest, hsign, ?_,
      stops_of_run_eq_nil hrest hdigits⟩
    rw [hsigned]
  · rw [if_neg hdigits] at herror
    obtain ⟨ds, more, hunread, hds, hvalue, rfl, hstops⟩ := before_digits hrest hdigits
    have hnumeral : signedNumeral (unread c.next.sign) ds =
        signedValue c.next.sign (c.next.skipSign.run isAsciiDigit) := by
      unfold signedNumeral signedValue
      rw [hvalue]
      simp only [hnil]
    split at herror
    · next hrange =>
      refine ⟨_, (Except.error.inj herror).symm, unread c.next.sign, ds, more, ?_, hsign, hds, ?_, ?_,
        hstops⟩
      · rw [unread_append, hunread]
      · rw [hnumeral]
        exact hrange
      · rw [hsigned, unread_append, hunread, List.append_assoc]
    · exact absurd herror (by simp)

theorem refuses_referenceOperand (h : c.Before src) (hat : c.at? (· = '@') = true)
    (herror : c.referenceOperand = .error e) : c.Refuses src e := by
  obtain ⟨mid, rfl, hmid⟩ := before_next_of_at?_mark h (by decide) hat
  unfold referenceOperand at herror
  by_cases hstart : c.next.at? isNameStart = true
  · rw [if_pos hstart] at herror
    exact absurd herror (by simp)
  · rw [if_neg hstart] at herror
    rw [Bool.not_eq_true, at?_eq_false_iff hmid] at hstart
    exact ⟨_, (Except.error.inj herror).symm, mid, rfl, hstart⟩

theorem refuses_stringOperand (h : c.Before src) (hat : c.at? (· = '\'') = true)
    (herror : c.stringOperand = .error e) : c.Refuses src e := by
  obtain ⟨mid, rfl, hmid⟩ := before_next_of_at?_mark h (by decide) hat
  unfold stringOperand at herror
  simp only at herror
  by_cases hended : (c.next.skipRun (· ≠ '\'')).rest = []
  · rw [if_pos hended] at herror
    -- all that follows is the run of characters that are no quotation mark
    obtain ⟨rest, hrun, hrest, -⟩ := before_skipRun hmid (· ≠ '\'')
    rw [hrest.eq_nil hended, List.append_nil] at hrun
    refine ⟨_, (Except.error.inj herror).symm, mid, rfl, ?_⟩
    rw [hrun, asciiByte_mem_unread_iff (fun g hg => (read_of_mem_run hmid hg).1) (by decide)]
    rintro ⟨g, hg, hchar⟩
    exact absurd hchar (of_decide_eq_true (read_of_mem_run hmid hg).2)
  · rw [if_neg hended] at herror
    exact absurd herror (by simp)

/-- **An operand that is refused** is one that the problem describes. -/
theorem refuses_operand (h : c.Before src) (herror : c.operand = some (.error e)) :
    c.Refuses src e := by
  unfold operand at herror
  split at herror
  · next hat => exact refuses_registerOperand h hat (Option.some.inj herror)
  · split at herror
    · next hat => exact refuses_immediateOperand h hat (Option.some.inj herror)
    · split at herror
      · next hat => exact refuses_referenceOperand h hat (Option.some.inj herror)
      · split at herror
        · next hat => exact refuses_stringOperand h hat (Option.some.inj herror)
        · exact absurd herror (by simp)

/-- **So is a head that is refused**; without a label there is something to refuse. -/
theorem refuses_head (h : c.Before src) {label : Option Bytes} (hne : label = none → src ≠ [])
    (herror : head label c = .error e) : c.Refuses src e := by
  unfold head at herror
  by_cases hdot : c.at? (· = '.') = true
  · rw [if_pos hdot] at herror
    obtain ⟨mid, rfl, hmid⟩ := before_next_of_at?_mark h (by decide) hdot
    by_cases hstart : c.next.at? isNameStart = true
    · rw [if_pos hstart] at herror
      exact absurd herror (by simp)
    · rw [if_neg hstart] at herror
      rw [Bool.not_eq_true, at?_eq_false_iff hmid] at hstart
      exact ⟨_, (Except.error.inj herror).symm, mid, rfl, hstart⟩
  · rw [if_neg hdot] at herror
    by_cases hstart : c.at? isNameStart = true
    · rw [if_pos hstart] at herror
      obtain ⟨hname, more, hsrc, -, hstops⟩ := before_skipName h hstart
      cases hlookup : Opcode.lookup? c.name with
      | some op =>
          rw [hlookup] at herror
          exact absurd herror (by simp)
      | none =>
          rw [hlookup] at herror
          exact ⟨_, (Except.error.inj herror).symm, hname, hlookup, more, hsrc, hstops⟩
    · rw [if_neg hstart] at herror
      rw [Bool.not_eq_true, at?_eq_false_iff h] at hdot hstart
      cases label with
      | some name => exact ⟨_, (Except.error.inj herror).symm, hdot, hstart⟩
      | none => exact ⟨_, (Except.error.inj herror).symm, hne rfl, hdot, hstart⟩

end

/-! ## §4. Every error is about the token it stands at. -/

section

variable {src : Bytes} {c x : Cursor} {e : SyntaxError}

theorem RefusedAt.leads (h : c.RefusedAt e x) (hwithin : Within src c) : Leads c x := by
  have hlabel := (label_reader hwithin).2
  cases h with
  | head hhead => exact hlabel
  | operand hhead _ hread _ _ =>
      have hafter := hlabel.trans
        ((reads_head (hwithin.leads hlabel) c.label.1).leads _ _ hhead)
      have hd := hafter.trans ((reads_operands _ (hwithin.leads hafter)).leads _ _ hread)
      exact hd.trans (hwithin.leads hd).leads_skipGap

theorem RefusedAt.refuses (h : c.RefusedAt e x) (hwithin : Within src c) (hne : c.rest ≠ []) :
    x.Refuses (unread x.rest) e := by
  have hbefore : x.Before (unread x.rest) := (hwithin.leads (h.leads hwithin)).glyphs_rest.symm
  cases h with
  | operand _ _ _ _ hoperand => exact refuses_operand hbefore hoperand
  | head hhead =>
      refine refuses_head hbefore ?_ hhead
      intro hnone hnil
      -- without a label the place is that of the record, where the text has not ended
      rcases label_cases c with hlabel | ⟨name, y, hlabel⟩
      · rw [hlabel] at hbefore hnil
        rw [hnil] at hbefore
        exact hne hbefore
      · rw [hlabel] at hnone
        exact absurd hnone (by simp)

/-- **Every error stands at a token of the text** and is about this token. -/
theorem records_eq_error {before : Array Record} (hwithin : Within src c)
    (herror : c.records before = .error e) :
    ∃ q d x, ReadsOn c q d ∧ d.skipGap.RefusedAt e x ∧ Leads c x ∧ x.Refuses (unread x.rest) e := by
  obtain ⟨q, d, hreads, ⟨-, hok⟩ | ⟨hne, e', hrecord, herror'⟩⟩ := records_outcome c before
  · exact absurd (herror.symm.trans hok) (by simp)
  · obtain rfl := Except.error.inj (herror.symm.trans herror')
    obtain ⟨x, hx⟩ := record_eq_error hrecord
    have hd := hreads.leads hwithin
    have hgap := hd.trans (hwithin.leads hd).leads_skipGap
    have hwithin' := hwithin.leads hgap
    exact ⟨q, d, x, hreads, hx, hgap.trans (hx.leads hwithin'), hx.refuses hwithin' hne⟩

end

end Cursor

end Quartet
