/-
  Polyglot.Proofs.Merge.Exchange — a merge whose two inputs are exchanged.

  Languages that differ decide the roles, so each source keeps its own
  (`roles_merge_of_ne`). For two sources of one language the place decides, so they
  change sides (`roles_merge_of_eq`), and their document changes with them unless they
  hold the same text. Either way all reports stay with their source (`merge_exchange`).
-/

import Polyglot.Proofs.Document.RoundTrip
import Polyglot.Proofs.Merge.Diagnostics

namespace Polyglot

variable {a b : Source}

/-! ## Roles -/

def Order.opposite : Order → Order
  | asGiven => swapped
  | swapped => asGiven

def Roles.exchange (r : Roles) : Roles := { python := r.javascript, javascript := r.python }

theorem Order.assign_opposite (o : Order) (a b : Source) : o.opposite.assign b a = o.assign a b := by
  cases o <;> rfl

theorem Order.assign_exchange (o : Order) (a b : Source) : o.assign b a = (o.assign a b).exchange := by
  cases o <;> rfl

theorem Classification.orderOf_comm {a b : Language} (h : a ≠ b) : orderOf b a = (orderOf a b).opposite := by
  revert h
  cases a <;> cases b <;> decide

theorem Classification.warningOf_comm (a b : Language) : warningOf b a = warningOf a b := by
  cases a <;> cases b <;> decide

theorem roles_merge_of_ne (h : a.language ≠ b.language) : (merge b a).roles = (merge a b).roles := by
  have horder : (merge b a).classification.order = (merge a b).classification.order.opposite :=
    Classification.orderOf_comm h
  rw [roles_merge, roles_merge, horder, Order.assign_opposite]

theorem roles_merge_of_eq (h : a.language = b.language) : (merge b a).roles = (merge a b).roles.exchange := by
  have horder : (merge b a).classification.order = (merge a b).classification.order := by
    show Classification.orderOf b.language a.language = Classification.orderOf a.language b.language
    rw [h]
  rw [roles_merge, roles_merge, horder, Order.assign_exchange]

/-! ## The document -/

/-- A document does not change with its programs exchanged only if they are one text. -/
theorem encode_exchange_iff (r : Roles) :
    Document.encode r.programs = Document.encode r.exchange.programs ↔ r.python.text = r.javascript.text := by
  rw [Document.encode_inj, Programs.mk.injEq]
  exact ⟨fun h => h.1, fun h => ⟨h, h.symm⟩⟩

theorem text_eq_iff_of_merge (a b : Source) :
    (merge a b).roles.python.text = (merge a b).roles.javascript.text ↔ a.text = b.text := by
  rw [roles_merge]
  cases (merge a b).classification.order with
  | asGiven => exact Iff.rfl
  | swapped => exact eq_comm

theorem document_exchange_iff (a b : Source) :
    (merge a b).document = (merge b a).document ↔ a.language ≠ b.language ∨ a.text = b.text := by
  show Document.encode (merge a b).roles.programs = Document.encode (merge b a).roles.programs ↔ _
  by_cases h : a.language = b.language
  · rw [roles_merge_of_eq h, encode_exchange_iff, text_eq_iff_of_merge]
    simp [h]
  · rw [roles_merge_of_ne h]
    simp [h]

/-! ## The diagnostics -/

def exchangeFile (id : FileId) : FileId :=
  if id = firstFile then secondFile
  else if id = secondFile then firstFile
  else id

def Place.exchangeFiles : Place → Place
  | nowhere => nowhere
  | file id => file (exchangeFile id)
  | span s => span { s with file := exchangeFile s.file }

/-- The diagnostic about the other input. -/
def Diagnostic.exchangeFiles (d : Diagnostic) : Diagnostic := { d with place := d.place.exchangeFiles }

theorem hazards_exchangeFiles (s : Source) (file : FileId) :
    (s.hazards file).map Diagnostic.exchangeFiles = s.hazards (exchangeFile file) := by
  rw [Source.hazards, List.map_map]
  rfl

/-- With its inputs exchanged, a merge gives the same document exactly if the languages of the inputs
    differ or their texts are the same. It warns of the same; what it reports about each input it
    reports under the input's new number, in the same order. -/
theorem merge_exchange (a b : Source) :
    ((merge a b).document = (merge b a).document ↔ a.language ≠ b.language ∨ a.text = b.text) ∧
      (merge b a).classification.warning = (merge a b).classification.warning ∧
      (merge a b).hazards = (merge a b).hazardsOf firstFile ++ (merge a b).hazardsOf secondFile ∧
      (merge b a).hazards =
        ((merge a b).hazardsOf secondFile ++ (merge a b).hazardsOf firstFile).map Diagnostic.exchangeFiles := by
  refine ⟨document_exchange_iff a b, Classification.warningOf_comm _ _, ?_, ?_⟩
  · rw [hazards_merge, hazardsOf_merge_first, hazardsOf_merge_second]
  · rw [hazards_merge, hazardsOf_merge_first, hazardsOf_merge_second, List.map_append, hazards_exchangeFiles,
      hazards_exchangeFiles]
    rfl

end Polyglot
