/-
  Polyglot.Proofs.Command.Report — the report says all that there is to say.

  With `--json` the standard output is one JSON text and a line feed. The text has one
  meaning, an object, and the output path as it is shown, the outcome and all of its
  diagnostics can be read back out of it (`Report.ofValue?_toJson`). So nothing is lost, and
  no two outcomes have the same report (`invoke_report`).
-/

import Polyglot.Proofs.Command.Outcome
import Polyglot.Proofs.Diagnostic.Decoding

namespace Polyglot

open Json

namespace Order

def ofName? (t : Text) : Option Order := [asGiven, swapped].find? (·.name == t)

theorem ofName?_name (o : Order) : ofName? o.name = some o := by
  cases o with
  | asGiven => rfl
  | swapped => rfl

end Order

namespace Command

variable {args : List Bytes} {r : Request}

/-- What is meant by the fields that come together or not at all. -/
def Assignment.ofFields? : Option Text → Option Text → Option Order → Option (Option Assignment)
  | some python, some javascript, some order => some (some { python, javascript, order })
  | none, none, none => some none
  | _, _, _ => none

theorem Assignment.ofFields?_self (o : Outcome) :
    Assignment.ofFields? o.python? o.javascript? o.order? = some o.assignment := by
  unfold Outcome.python? Outcome.javascript? Outcome.order?
  cases o.assignment with
  | none => rfl
  | some a => rfl

/-- What a report says. -/
structure Report where
  version : Nat
  output : Text
  outcome : Outcome
  deriving DecidableEq

namespace Report

/-- What there is to say about a run of `r`. -/
def ofOutcome (r : Request) (o : Outcome) : Report where
  version := Outcome.schemaVersion
  output := r.output.display
  outcome := o

def ofValue? (x : Value) : Option Report := do
  let version ← x.required? "schema_version".toList Value.nat?
  let output ← x.required? "output".toList Value.text?
  let python ← x.optional? "python".toList Value.text?
  let javascript ← x.optional? "javascript".toList Value.text?
  let order ← x.optional? "order".toList fun y => y.text?.bind Order.ofName?
  let assignment ← Assignment.ofFields? python javascript order
  let written ← x.required? "written".toList Value.flag?
  let diagnostics ← x.required? "diagnostics".toList (Value.list? Diagnostic.ofValue?)
  return { version, output, outcome := { assignment, written, diagnostics } }

theorem toJson_eq_record (output : Text) (o : Outcome) :
    o.toJson output = .record [("schema_version".toList, some (.num Outcome.schemaVersion)),
      ("output".toList, some (.str output)), ("python".toList, o.python?.map .str),
      ("javascript".toList, o.javascript?.map .str), ("order".toList, o.order?.map fun order => .str order.name),
      ("written".toList, some (.bool o.written)),
      ("diagnostics".toList, some (.arr (o.diagnostics.map (·.toJson))))] := by
  simp only [Outcome.toJson, record, Diagnostic.optionalField, Outcome.python?, Outcome.javascript?, Outcome.order?,
    Option.map_map, Function.comp_def, List.flatMap_cons, List.flatMap_nil, List.append_assoc, List.append_nil,
    List.cons_append, List.nil_append]

/-- The diagnostics can be read without the rest of the report. -/
theorem diagnostics_toJson (output : Text) (o : Outcome) :
    (o.toJson output).value.required? "diagnostics".toList (Value.list? Diagnostic.ofValue?) = some o.diagnostics := by
  rw [toJson_eq_record, required?_record rfl Diagnostic.list?_toJson]

theorem ofValue?_toJson (output : Text) (o : Outcome) :
    ofValue? (o.toJson output).value = some { version := Outcome.schemaVersion, output, outcome := o } := by
  have htext (t : Text) : (Json.str t).value.text? = some t := rfl
  have hflag (b : Bool) : (Json.bool b).value.flag? = some b := rfl
  have horder (order : Order) : ((Json.str order.name).value.text?.bind Order.ofName?) = some order :=
    order.ofName?_name
  rw [ofValue?, diagnostics_toJson, toJson_eq_record, required?_record rfl nat?_value_num, required?_record rfl htext,
    optional?_record rfl htext, optional?_record rfl htext, optional?_record rfl horder,
    required?_record rfl hflag]
  simp only [Option.bind_eq_bind, Option.bind_some, Option.pure_def, Assignment.ofFields?_self]

end Report

/-! ## The command -/

/-- The standard output is one JSON text and a line feed. The text means an object and nothing else, and this
    is what the object says. -/
def Response.Tells (x : Response) (report : Report) : Prop :=
  ∃ text fields, x.stdout = text ++ ['\n'] ∧ (∀ v, IsText text v ↔ v = .obj fields) ∧
    Report.ofValue? (.obj fields) = some report

namespace Response

/-- The same standard output cannot say two things. -/
theorem Tells.unique {x x' : Response} {report report' : Report} (h : x.Tells report) (h' : x'.Tells report')
    (hx : x.stdout = x'.stdout) : report = report' := by
  obtain ⟨text, fields, htext, hmeans, hreport⟩ := h
  obtain ⟨text', fields', htext', hmeans', hreport'⟩ := h'
  obtain rfl : text = text' := List.append_cancel_right (htext.symm.trans (hx.trans htext'))
  have hfields := (hmeans' _).1 ((hmeans _).2 rfl)
  rw [hfields, hreport'] at hreport
  exact (Option.some.inj hreport).symm

theorem tells_ofAccount (hjson : r.flags.json = true) (a : Account) :
    (ofAccount r a).Tells (.ofOutcome r a.outcome) :=
  ⟨_, _, if_pos hjson, isText_pretty_iff _, Report.ofValue?_toJson _ _⟩

end Response

theorem invoke_report (hr : Invocation.ofArguments args = .run r) (hjson : r.flags.json = true) :
    (∀ t, ((invoke FileTree.host args).run t).1.Tells
        (.ofOutcome r ((run FileTree.host r).run t).1.outcome)) ∧
      (∀ a, (Response.ofAccount r a).Tells (.ofOutcome r a.outcome)) ∧
      ∀ r' a a', r'.flags.json = true → (Response.ofAccount r a).stdout = (Response.ofAccount r' a').stdout →
        r.output.display = r'.output.display ∧ a.outcome = a'.outcome := by
  refine ⟨fun t => ?_, Response.tells_ofAccount hjson, fun r' a a' hjson' hstdout => ?_⟩
  · rw [invoke_run hr]
    exact Response.tells_ofAccount hjson _
  · have heq := (Response.tells_ofAccount hjson a).unique (Response.tells_ofAccount hjson' a') hstdout
    simp only [Report.ofOutcome, Report.mk.injEq, true_and] at heq
    exact heq

/-- A name that is not text, with a quotation mark, a backslash and a control character in it. -/
def strangeName : Bytes := Utf8.encode "\"\\\x01".toList ++ [0xFF]

def strangeRequest : Request where
  first := strangeName
  second := Utf8.encode "b".toList
  output := Utf8.encode "b/\t".toList
  flags := Flags.none.add .json

def strangeArguments : List Bytes :=
  [strangeRequest.first, Utf8.encode "--json".toList, strangeRequest.second, strangeRequest.output]

/-- The outcome of a run from a tree without files. -/
def missingOutcome : Outcome :=
  Outcome.fail ⟨none, false, []⟩ (.missing [strangeRequest.first, strangeRequest.second])

/-- Diagnostics about nothing in particular, about a range and about a file, with and without notes. -/
def mixedOutcome : Outcome where
  assignment := some ⟨Path.display strangeName, "b".toList, .swapped⟩
  written := true
  diagnostics := [RoleWarning.noRecognizedExtension.toDiagnostic, Hazard.toDiagnostic ⟨.nul, 3, 5⟩ firstFile,
    (Failure.notText secondFile (.invalid 1 7)).toDiagnostic]

theorem invoke_report_strange :
    Invocation.ofArguments strangeArguments = .run strangeRequest ∧
      strangeRequest.flags.json = true ∧
      ((run FileTree.host strangeRequest).run ⟨[], []⟩).1.outcome = missingOutcome ∧
      ((invoke FileTree.host strangeArguments).run ⟨[], []⟩).1.Tells (.ofOutcome strangeRequest missingOutcome) ∧
      (Response.ofAccount strangeRequest ⟨mixedOutcome, [], none⟩).Tells (.ofOutcome strangeRequest mixedOutcome) ∧
      (Response.ofAccount strangeRequest ⟨mixedOutcome, [], none⟩).stdout ≠
        (Response.ofAccount strangeRequest ⟨missingOutcome, [], none⟩).stdout := by
  have hr : Invocation.ofArguments strangeArguments = .run strangeRequest := by decide +kernel
  have hjson : strangeRequest.flags.json = true := rfl
  have houtcome : ((run FileTree.host strangeRequest).run ⟨[], []⟩).1.outcome = missingOutcome := by decide +kernel
  obtain ⟨hrun, haccount, hinj⟩ := invoke_report hr hjson
  refine ⟨hr, hjson, houtcome, ?_, haccount _, fun h => ?_⟩
  · rw [← houtcome]
    exact hrun _
  · exact absurd (hinj _ _ _ hjson h).2 (by decide)

end Command

end Polyglot
