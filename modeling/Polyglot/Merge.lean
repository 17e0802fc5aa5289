/-
  Polyglot.Merge — two sources become one document, with everything there is to say
  about them.

  Diagnostics come in the order of the inputs, whichever of them is the Python program:
  first those about no file, then those about the first input, then those about the
  second, each in the order of the text.
-/

import Polyglot.Document.Basic
import Polyglot.Hazard
import Polyglot.Roles

namespace Polyglot

def firstFile : FileId := 0

def secondFile : FileId := 1

/-- The inputs that are the Python and the JavaScript program. -/
def Order.files : Order → FileId × FileId
  | asGiven => (firstFile, secondFile)
  | swapped => (secondFile, firstFile)

def Roles.programs (r : Roles) : Programs := { python := r.python.text, javascript := r.javascript.text }

namespace Diagnostic

/-- Diagnostics about no file come before those about the first. -/
def fileRank (d : Diagnostic) : Nat :=
  match d.place.file? with
  | none => 0
  | some id => id + 1

/-- The diagnostics by file; those about one file keep their order. -/
def sortByFile (ds : List Diagnostic) : List Diagnostic := ds.mergeSort fun a b => a.fileRank ≤ b.fileRank

end Diagnostic

/-- The hazards of a source as diagnostics about its file. -/
def Source.hazards (s : Source) (file : FileId) : List Diagnostic := (Hazard.scan s.text).map (·.toDiagnostic file)

structure Merged where
  document : Text
  classification : Classification
  roles : Roles
  /-- Warnings only. -/
  diagnostics : List Diagnostic

/-- Merges two sources, whatever they hold. -/
def merge (first second : Source) : Merged :=
  let classification := Classification.ofLanguages first.language second.language
  let roles := classification.order.assign first second
  let (pythonFile, javascriptFile) := classification.order.files
  { document := Document.encode roles.programs
    classification
    roles
    diagnostics := Diagnostic.sortByFile (
      classification.warning.toList.map RoleWarning.toDiagnostic ++
      roles.python.hazards pythonFile ++ roles.javascript.hazards javascriptFile) }

end Polyglot
