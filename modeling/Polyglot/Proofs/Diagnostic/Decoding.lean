/-
  Polyglot.Proofs.Diagnostic.Decoding — a diagnostic read back out of what is printed of
  it.

  Whatever it is about and however many notes it has, a diagnostic comes back as it was
  (`Diagnostic.ofValue?_toJson`). A field that is not there stands for nothing said, and
  `file` and `primary` have to name the same file.
-/

import Polyglot.Proofs.Json.Decoding

namespace Polyglot

open Json

namespace TextRange

def ofValue? (x : Value) : Option TextRange := do
  return ⟨← x.required? "start".toList Value.nat?, ← x.required? "end".toList Value.nat?⟩

theorem ofValue?_toJson (r : TextRange) : ofValue? r.toJson.value = some r := by
  have hr : r.toJson = .record [("start".toList, some (.num r.start)), ("end".toList, some (.num r.stop))] := rfl
  rw [ofValue?, hr, required?_record rfl nat?_value_num, required?_record rfl nat?_value_num]
  rfl

end TextRange

namespace Span

def ofValue? (x : Value) : Option Span := do
  return ⟨← x.required? "file".toList Value.nat?, ← x.required? "range".toList TextRange.ofValue?⟩

theorem ofValue?_toJson (s : Span) : ofValue? s.toJson.value = some s := by
  have hs : s.toJson = .record [("file".toList, some (.num s.file)), ("range".toList, some s.range.toJson)] := rfl
  rw [ofValue?, hs, required?_record rfl nat?_value_num, required?_record rfl TextRange.ofValue?_toJson]
  rfl

end Span

namespace Severity

def ofName? (t : Text) : Option Severity := [error, warning].find? (·.name == t)

theorem ofName?_name (s : Severity) : ofName? s.name = some s := by
  cases s with
  | error => rfl
  | warning => rfl

end Severity

namespace Place

/-- What is meant by the fields `file` and `primary`. -/
def ofFields? : Option FileId → Option Span → Option Place
  | none, none => some nowhere
  | some id, none => some (file id)
  | some id, some s => if s.file = id then some (span s) else none
  | none, some _ => none

theorem ofFields?_self (p : Place) : ofFields? p.file? p.span? = some p := by
  cases p with
  | nowhere => rfl
  | file id => rfl
  | span s => exact if_pos rfl

end Place

namespace Diagnostic

def ofValue? (x : Value) : Option Diagnostic := do
  let code ← x.required? "code".toList Value.text?
  let severity ← x.required? "severity".toList fun y => y.text?.bind Severity.ofName?
  let message ← x.required? "message".toList Value.text?
  let file ← x.optional? "file".toList Value.nat?
  let primary ← x.optional? "primary".toList Span.ofValue?
  let place ← Place.ofFields? file primary
  let notes ← x.optional? "notes".toList (Value.list? Value.text?)
  return { code, severity, message, place, notes := notes.getD [] }

/-- The notes, if there are any. -/
def notes? (d : Diagnostic) : Option (List Text) := if d.notes.isEmpty then none else some d.notes

theorem getD_notes? (d : Diagnostic) : d.notes?.getD [] = d.notes := by
  unfold notes?
  split
  case isTrue h => exact (List.isEmpty_iff.1 h).symm
  case isFalse => rfl

theorem toJson_eq_record (d : Diagnostic) :
    d.toJson = .record [("code".toList, some (.str d.code)), ("severity".toList, some (.str d.severity.name)),
      ("message".toList, some (.str d.message)), ("file".toList, d.place.file?.map .num),
      ("primary".toList, d.place.span?.map Span.toJson),
      ("notes".toList, d.notes?.map fun ns => .arr (ns.map .str))] := by
  have hnotes : (if d.notes.isEmpty then none else some (.arr (d.notes.map .str))) =
      d.notes?.map fun ns => Json.arr (ns.map .str) := by
    unfold notes?
    split <;> rfl
  rw [toJson, hnotes]
  simp only [record, optionalField, List.flatMap_cons, List.flatMap_nil, List.append_assoc, List.append_nil,
    List.cons_append, List.nil_append]

theorem ofValue?_toJson (d : Diagnostic) : ofValue? d.toJson.value = some d := by
  have htext (t : Text) : (Json.str t).value.text? = some t := rfl
  have hseverity (s : Severity) : ((Json.str s.name).value.text?.bind Severity.ofName?) = some s := s.ofName?_name
  have hnotes (ns : List Text) : (Json.arr (ns.map .str)).value.list? Value.text? = some ns :=
    list?_value_arr htext ns
  rw [ofValue?, toJson_eq_record, required?_record rfl htext, required?_record rfl hseverity,
    required?_record rfl htext, optional?_record rfl nat?_value_num, optional?_record rfl Span.ofValue?_toJson,
    optional?_record rfl hnotes]
  simp only [Option.bind_eq_bind, Option.bind_some, Option.pure_def, Place.ofFields?_self, getD_notes?]

theorem list?_toJson (ds : List Diagnostic) : (Json.arr (ds.map (·.toJson))).value.list? ofValue? = some ds :=
  list?_value_arr ofValue?_toJson ds

end Diagnostic

end Polyglot
