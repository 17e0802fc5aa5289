/-
  Polyglot.Proofs.Merge.Hazards — a merge reports the hazards of its document.

  The hazards are looked for in the sources, and they do harm in the document. Under the
  code of a kind a merge reports the runs of that kind in its two sources
  (`reportedAs_merge`), the runs cover the character of the kind
  (`Polyglot.Proofs.Hazard.Runs`), and the document has that character as often as the
  sources together (`count_document`).
-/

import Polyglot.Proofs.Document.Controls
import Polyglot.Proofs.Hazard.Runs
import Polyglot.Proofs.Merge.Diagnostics

namespace Polyglot

variable {a b : Source} {kind : HazardKind}

/-! ## The document -/

theorem controls_document (a b : Source) :
    Text.controls (merge a b).document =
      Text.controls ((merge a b).roles.javascript.text ++ (merge a b).roles.python.text) := by
  rw [Text.controls_append]
  exact Document.controls_encode (merge a b).roles.programs

theorem count_controls (kind : HazardKind) (t : Text) : (Text.controls t).count kind.char = t.count kind.char :=
  List.count_filter (by cases kind <;> decide)

theorem count_document (a b : Source) (kind : HazardKind) :
    (merge a b).document.count kind.char = a.text.count kind.char + b.text.count kind.char := by
  rw [← count_controls, controls_document, count_controls, List.count_append, roles_merge]
  cases (merge a b).classification.order with
  | asGiven => exact Nat.add_comm _ _
  | swapped => rfl

theorem mem_document_iff : kind.char ∈ (merge a b).document ↔ kind.char ∈ a.text ∨ kind.char ∈ b.text := by
  rw [← List.count_pos_iff, count_document, ← List.count_pos_iff, ← List.count_pos_iff]
  omega

/-! ## The reports -/

/-- What a merge reports under a code. -/
def Merged.reportedAs (m : Merged) (code : Text) : List Diagnostic := m.diagnostics.filter (·.code == code)

theorem exists_code_iff {m : Merged} {code : Text} :
    (∃ d ∈ m.diagnostics, d.code = code) ↔ m.reportedAs code ≠ [] := by
  rw [Merged.reportedAs, Ne, List.filter_eq_nil_iff]
  simp

/-- The length of the range that a diagnostic is about. -/
def Diagnostic.extent (d : Diagnostic) : Nat :=
  match d.place with
  | .span s => s.range.len
  | .file _ | .nowhere => 0

def Diagnostic.totalExtent : List Diagnostic → Nat
  | [] => 0
  | d :: ds => d.extent + totalExtent ds

theorem Diagnostic.totalExtent_append (ds ds' : List Diagnostic) :
    totalExtent (ds ++ ds') = totalExtent ds + totalExtent ds' := by
  induction ds with
  | nil => exact (Nat.zero_add _).symm
  | cons d ds ih => rw [List.cons_append, totalExtent, totalExtent, ih, Nat.add_assoc]

/-- A run up to the limit of positions is reported in its length. -/
theorem extent_toDiagnostic {h : Hazard} (hlimit : h.Within TextRange.limit) (file : FileId) :
    (h.toDiagnostic file).extent = h.len := by
  have hstart := hlimit.start_lt_stop
  have hstop := hlimit.stop_le
  show min h.stop TextRange.limit - min h.start TextRange.limit = h.stop - h.start
  rw [Nat.min_eq_left (by omega), Nat.min_eq_left (by omega)]

theorem totalExtent_toDiagnostic {hs : List Hazard} (hlimit : ∀ h ∈ hs, h.Within TextRange.limit) (file : FileId) :
    Diagnostic.totalExtent (hs.map (·.toDiagnostic file)) = (hs.flatMap Hazard.positions).length := by
  induction hs with
  | nil => rfl
  | cons h hs ih =>
    have hhead := extent_toDiagnostic (hlimit h List.mem_cons_self) file
    have htail := ih fun h' hh => hlimit h' (List.mem_cons_of_mem h hh)
    rw [List.map_cons, Diagnostic.totalExtent, hhead, htail, List.flatMap_cons, List.length_append,
      Hazard.length_positions]

/-- The runs of a kind in a source as diagnostics about its file. -/
def Source.hazardsOfKind (s : Source) (kind : HazardKind) (file : FileId) : List Diagnostic :=
  ((Hazard.scan s.text).filter (·.kind = kind)).map (·.toDiagnostic file)

theorem HazardKind.code_inj {kind kind' : HazardKind} : kind.code = kind'.code ↔ kind = kind' := by
  have hne : "JUSPY0003".toList ≠ "JUSPY0004".toList := mt String.toList_inj.1 (by decide)
  constructor
  · intro h
    cases kind with
    | carriageReturn =>
      cases kind' with
      | carriageReturn => rfl
      | nul => exact absurd h hne
    | nul =>
      cases kind' with
      | carriageReturn => exact absurd h.symm hne
      | nul => rfl
  · intro h
    rw [h]

theorem filter_code_hazards (s : Source) (kind : HazardKind) (file : FileId) :
    (s.hazards file).filter (·.code == kind.code) = s.hazardsOfKind kind file := by
  rw [Source.hazards, List.filter_map, Source.hazardsOfKind]
  congr 2
  funext h
  show (h.kind.code == kind.code) = decide (h.kind = kind)
  rw [Bool.beq_eq_decide_eq]
  exact decide_eq_decide.2 HazardKind.code_inj

theorem reportedAs_merge (a b : Source) (kind : HazardKind) :
    (merge a b).reportedAs kind.code = a.hazardsOfKind kind firstFile ++ b.hazardsOfKind kind secondFile := by
  have hwarning (w : RoleWarning) : ¬(w.toDiagnostic.code == kind.code) = true := by
    rw [beq_iff_eq]
    exact w.code_ne kind
  rw [Merged.reportedAs, filter_diagnostics_merge hwarning, filter_code_hazards, filter_code_hazards]

theorem hazardsOfKind_ne_nil_iff {s : Source} {file : FileId} :
    s.hazardsOfKind kind file ≠ [] ↔ kind.char ∈ s.text := by
  rw [← Hazard.exists_mem_scan_iff, Source.hazardsOfKind, Ne, List.map_eq_nil_iff, List.filter_eq_nil_iff]
  simp

theorem totalExtent_hazardsOfKind {s : Source} (hlimit : Text.byteLen s.text ≤ TextRange.limit) (kind : HazardKind)
    (file : FileId) : Diagnostic.totalExtent (s.hazardsOfKind kind file) = s.text.count kind.char := by
  have hwithin : ∀ h ∈ (Hazard.scan s.text).filter (·.kind = kind), h.Within TextRange.limit := fun h hh =>
    (Hazard.within_scan (List.mem_filter.1 hh).1).mono hlimit
  rw [← Hazard.length_covered_scan, Source.hazardsOfKind, totalExtent_toDiagnostic hwithin]
  rfl

/-! ## Reports and document -/

/-- A document has no line feed, and its carriage returns and NULs are those of its two programs. It
    has one of them exactly if the merge reports it; and unless a source is too long for positions in
    it to be told, the reported ranges are as long as there are such characters in the document. -/
theorem merge_reports_hazards (a b : Source) :
    '\n' ∉ (merge a b).document ∧
      Text.controls (merge a b).document =
        Text.controls ((merge a b).roles.javascript.text ++ (merge a b).roles.python.text) ∧
      (∀ kind : HazardKind, kind.char ∈ (merge a b).document ↔ ∃ d ∈ (merge a b).diagnostics, d.code = kind.code) ∧
      (Text.byteLen a.text ≤ TextRange.limit → Text.byteLen b.text ≤ TextRange.limit → ∀ kind : HazardKind,
        Diagnostic.totalExtent ((merge a b).reportedAs kind.code) = (merge a b).document.count kind.char) := by
  refine ⟨Document.lineFeed_not_mem_encode _, controls_document a b, fun kind => ?_, fun ha hb kind => ?_⟩
  · rw [mem_document_iff, exists_code_iff, reportedAs_merge, Ne, List.append_eq_nil_iff,
      Classical.not_and_iff_not_or_not]
    exact or_congr hazardsOfKind_ne_nil_iff.symm hazardsOfKind_ne_nil_iff.symm
  · rw [reportedAs_merge, Diagnostic.totalExtent_append, totalExtent_hazardsOfKind ha, totalExtent_hazardsOfKind hb,
      count_document]

/-- A run of two carriage returns and a NUL, after a character of two bytes. -/
def runsSource : Source := ⟨"a.js".toList, "é\r\r\n\x00".toList, .javascript⟩

def crlfSource : Source := ⟨"b.py".toList, "x\r\n".toList, .python⟩

theorem merge_reports_hazards_runs :
    Text.byteLen runsSource.text ≤ TextRange.limit ∧ Text.byteLen crlfSource.text ≤ TextRange.limit ∧
      Diagnostic.totalExtent ((merge runsSource crlfSource).reportedAs HazardKind.carriageReturn.code) = 3 ∧
      Diagnostic.totalExtent ((merge runsSource crlfSource).reportedAs HazardKind.nul.code) = 1 := by
  have hruns : Text.byteLen runsSource.text ≤ TextRange.limit := by decide
  have hcrlf : Text.byteLen crlfSource.text ≤ TextRange.limit := by decide
  have htotal := (merge_reports_hazards runsSource crlfSource).2.2.2 hruns hcrlf
  refine ⟨hruns, hcrlf, ?_, ?_⟩
  · rw [htotal]
    decide
  · rw [htotal]
    decide

end Polyglot
