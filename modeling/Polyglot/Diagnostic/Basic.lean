/-
  Polyglot.Diagnostic.Basic — what is reported about the inputs or the machine.

  A diagnostic is about nothing in particular, about a whole file, or about a range of
  a file (`Place`).
-/

import Polyglot.Json

namespace Polyglot

/-- Which of the inputs a diagnostic is about. -/
abbrev FileId := Nat

/-- Byte positions in a text; `stop` may lie before `start`. -/
structure TextRange where
  start : Nat
  stop : Nat
  deriving DecidableEq

namespace TextRange

/-- The greatest position that a range can name. -/
def limit : Nat := 4294967295

/-- The range between two positions, each brought down to the limit. -/
def ofOffsets (start stop : Nat) : TextRange := ⟨min start limit, min stop limit⟩

def len (r : TextRange) : Nat := r.stop - r.start

def isEmpty (r : TextRange) : Bool := r.stop ≤ r.start

def toJson (r : TextRange) : Json := .obj [("start".toList, .num r.start), ("end".toList, .num r.stop)]

end TextRange

structure Span where
  file : FileId
  range : TextRange
  deriving DecidableEq

def Span.toJson (s : Span) : Json := .obj [("file".toList, .num s.file), ("range".toList, s.range.toJson)]

inductive Severity where
  | error
  | warning
  deriving DecidableEq

def Severity.name : Severity → Text
  | .error => "error".toList
  | .warning => "warning".toList

/-- What a diagnostic is about. -/
inductive Place where
  | nowhere
  | file (id : FileId)
  | span (s : Span)
  deriving DecidableEq

namespace Place

def ofSpan? : Option Span → Place
  | none => nowhere
  | some s => span s

def file? : Place → Option FileId
  | nowhere => none
  | file id => some id
  | span s => some s.file

def span? : Place → Option Span
  | span s => some s
  | nowhere | file _ => none

end Place

structure Diagnostic where
  code : Text
  severity : Severity
  message : Text
  place : Place
  notes : List Text
  deriving DecidableEq

namespace Diagnostic

def isError (d : Diagnostic) : Bool := d.severity == .error

/-- A field that is left out when there is nothing to say. -/
def optionalField (key : Text) : Option Json → List (Text × Json)
  | none => []
  | some v => [(key, v)]

def toJson (d : Diagnostic) : Json :=
  .obj (
    [("code".toList, .str d.code), ("severity".toList, .str d.severity.name), ("message".toList, .str d.message)] ++
    optionalField "file".toList (d.place.file?.map .num) ++
    optionalField "primary".toList (d.place.span?.map Span.toJson) ++
    optionalField "notes".toList (if d.notes.isEmpty then none else some (.arr (d.notes.map .str))))

end Diagnostic

end Polyglot
