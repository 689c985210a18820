/-
  Quartet.Proofs.Assembly.Unlabelled
  ──────────────────────────────────
  **WITHOUT LABELS EVERY RECORD STANDS ALONE.**

  Records meet in a program through labels only: labels are what is bound to an address, what is
  referred to and what a text needs to be kept.  A program without them is assembled record by
  record, so that programs can be put together and taken apart:

    • `Program.acceptable_iff_selfContained` — it is acceptable if each of its records is,
    • `Program.assemble_eq_ok_iff_selfContained` — it has no data, and its code is the slots of its
      records, which depend on nothing else.
-/
import Quartet.Proofs.Assembly.Acceptance
import Quartet.Proofs.Source.Grammar

namespace Quartet

/-! ## §1. Records that stand alone. -/

/-- What a record without a label has to be in any program. -/
structure Record.SelfContained (r : Record) : Prop where
  /-- It has no label. -/
  label : r.label = none
  /-- It is headed by an operation or a directive. -/
  head : r.isOperation ∨ r.isDirective
  /-- If it is a directive with operands, it is a text. -/
  directed : r.Directed
  /-- If it is an instruction, its operands can be encoded without any label and fit. -/
  operands : r.isOperation →
    (∀ t ∈ r.operands, Program.HasOperand [] t) ∧ Token.widths r.operands ≤ 3

theorem Record.Shaped.isOperation_or_isDirective {r : Record} (h : r.Shaped) :
    r.isOperation ∨ r.isDirective := by
  have hhead := h.1
  unfold Record.isOperation Record.isDirective
  cases ht : r.head with
  | op byte => exact Or.inl rfl
  | directive name => exact Or.inr rfl
  | _ =>
      rw [ht] at hhead
      exact absurd hhead (by simp [Token.isHead])

namespace Program

variable {p q : Program}

/-- Neither this nor the slot of a record depends on where the record stands. -/
theorem Same.selfContained (h : p.Same q) (hq : ∀ r ∈ q, r.SelfContained) :
    ∀ r ∈ p, r.SelfContained := by
  intro r hr
  have hmem : r.content ∈ q.map Record.content := by
    rw [← show p.map Record.content = q.map Record.content from h]
    exact List.mem_map_of_mem hr
  obtain ⟨s, hs, hcontent⟩ := List.mem_map.mp hmem
  obtain ⟨hlabel, hhead, hoperands⟩ := Record.eq_of_content hcontent
  obtain ⟨slabel, shead, sdirected, soperands⟩ := hq s hs
  unfold Record.Directed at sdirected
  unfold Record.isOperation Record.isDirective at *
  rw [hlabel] at slabel
  rw [hhead] at shead sdirected soperands
  rw [hoperands] at sdirected soperands
  exact ⟨slabel, shead, sdirected, soperands⟩

theorem Same.flatMap_slotImage (h : p.Same q) (labelled : Program) :
    p.flatMap labelled.slotImage = q.flatMap labelled.slotImage := by
  have hslots : ∀ p : Program, p.flatMap labelled.slotImage
      = (p.map Record.content).flatMap fun x =>
          labelled.slotImage { label := x.1, head := x.2.1, operands := x.2.2 } := by
    intro p
    rw [List.flatMap_map]
    rfl
  rw [hslots p, hslots q, show p.map Record.content = q.map Record.content from h]

/-! ## §2. Programs without labels. -/

/-- Directives have no slot. -/
theorem flatMap_instructions (p labelled : Program) :
    p.instructions.flatMap labelled.slotImage = p.flatMap labelled.slotImage := by
  induction p with
  | nil => rfl
  | cons r p ih =>
      unfold instructions at ih ⊢
      rw [List.flatMap_cons]
      cases hhead : r.head with
      | op byte =>
          have hop : r.isOperation = true := by simp [Record.isOperation, hhead]
          rw [List.filter_cons_of_pos hop, List.flatMap_cons, ih]
      | _ =>
          have hop : ¬r.isOperation = true := by simp [Record.isOperation, hhead]
          rw [List.filter_cons_of_neg hop, ih]
          simp [slotImage, hhead]

section

variable (hlabel : ∀ r ∈ p, r.label = none)
include hlabel

theorem filterMap_label_eq_nil : p.filterMap Record.label = [] :=
  List.filterMap_eq_nil_iff.mpr hlabel

theorem labels_eq_nil : p.labels = [] := by
  have hnames := p.map_name_labels
  rw [filterMap_label_eq_nil hlabel] at hnames
  exact List.map_eq_nil_iff.mp hnames

/-- A text without a label is not kept. -/
theorem labelledText?_eq_none {r : Record} (hr : r ∈ p) : r.labelledText? = none := by
  unfold Record.labelledText?
  rw [hlabel r hr]

theorem dataBytes_eq_nil : p.dataBytes = [] := by
  unfold dataBytes
  rw [List.flatMap_eq_nil_iff]
  intro r hr
  unfold Record.dataBytes
  rw [labelledText?_eq_none hlabel hr]

theorem hasOperand_iff {t : Token} : p.HasOperand t ↔ HasOperand [] t := by
  cases t with
  | reference name =>
      show name ∈ p.filterMap Record.label ↔ name ∈ ([] : Program).filterMap Record.label
      rw [filterMap_label_eq_nil hlabel]
      rfl
  | _ => exact Iff.rfl

theorem slotImage_eq : p.slotImage = slotImage [] := by
  have hoffset : p.offsetOf? = offsetOf? [] := by
    funext name
    unfold offsetOf?
    rw [labels_eq_nil hlabel]
    rfl
  have hoperand : p.operandImage = operandImage [] := by
    funext t
    cases t with
    | reference name =>
        show (p.offsetOf? name).toList.map UInt8.ofNat = _
        rw [hoffset]
        rfl
    | _ => rfl
  funext r
  unfold slotImage
  rw [hoperand]

variable (hhead : ∀ r ∈ p, r.isOperation ∨ r.isDirective)
include hhead

/-- **A program without labels is acceptable record by record.** -/
theorem acceptable_iff_selfContained : p.Acceptable ↔ ∀ r ∈ p, r.SelfContained := by
  constructor
  · intro h r hr
    refine ⟨hlabel r hr, hhead r hr, h.directives r hr, ?_⟩
    intro hop
    obtain ⟨hoperands, hwidth⟩ := h.operands r (List.mem_filter.mpr ⟨hr, hop⟩)
    exact ⟨fun t ht => (hasOperand_iff hlabel).mp (hoperands t ht), hwidth⟩
  · intro h
    -- what is asked about labels is void
    refine ⟨⟨fun r hr => (h r hr).directed, ?_, ?_, ?_, ?_⟩, ?_⟩
    · intro i r hr hne
      exact absurd (hlabel r (List.mem_of_getElem? hr)) hne
    · rw [filterMap_label_eq_nil hlabel]
      exact List.nodup_nil
    · rw [dataBytes_eq_nil hlabel]
      exact Nat.zero_le _
    · rw [labels_eq_nil hlabel]
      exact fun a ha => absurd ha List.not_mem_nil
    · intro r hr
      obtain ⟨hmem, hop⟩ := List.mem_filter.mp hr
      obtain ⟨hoperands, hwidth⟩ := (h r hmem).operands hop
      exact ⟨fun t ht => (hasOperand_iff hlabel).mpr (hoperands t ht), hwidth⟩

/-- **The image of a program without labels** has no data, and its code is the slots of its records
one after the other. -/
theorem assemble_eq_ok_iff_selfContained {img : Image} :
    p.assemble.result = .ok img ↔
      (∀ r ∈ p, r.SelfContained) ∧ img = ⟨[], p.flatMap (slotImage [])⟩ := by
  -- whatever image there is, it is this one
  have himage : ∀ {img : Image}, p.assemble.result = .ok img →
      img = ⟨[], p.flatMap (slotImage [])⟩ := by
    rintro ⟨data, code⟩ hok
    obtain ⟨table, hrealises⟩ := realises_of_assemble hhead hok
    have hdata : data = [] := by rw [← dataBytes_eq_nil hlabel]; exact hrealises.data
    have hcode : code = p.flatMap (slotImage []) := by
      rw [← slotImage_eq hlabel, ← flatMap_instructions]
      exact hrealises.code
    rw [hdata, hcode]
  constructor
  · intro hok
    obtain ⟨hlayout, hencoding, -, -⟩ := assemble_eq_ok hok
    have haccept := (acceptable_iff hhead).mpr ⟨hlayout, hencoding⟩
    exact ⟨(acceptable_iff_selfContained hlabel hhead).mp haccept, himage hok⟩
  · rintro ⟨hall, rfl⟩
    obtain ⟨hlayout, hencoding⟩ :=
      (acceptable_iff hhead).mp ((acceptable_iff_selfContained hlabel hhead).mpr hall)
    have hok := p.assemble_result
    rw [if_neg (not_not_intro hlayout), if_neg (not_not_intro hencoding)] at hok
    rw [hok, himage hok]

end

end Program

end Quartet
