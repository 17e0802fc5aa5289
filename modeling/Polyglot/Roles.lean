/-
  Polyglot.Roles — which of two sources is the Python program and which the JavaScript
  program.

  Every pair gets its roles. When the languages do not decide, a warning says so and a
  fixed rule does: a source known to be JavaScript leaves the Python side to the other,
  and of two unknown ones the first is taken for Python.
-/

import Polyglot.Diagnostic.Basic
import Polyglot.Language

namespace Polyglot

structure Source where
  name : Text
  text : Text
  language : Language
  deriving DecidableEq

/-- A source under the name that its path is shown by, in the language of its extension. -/
def Source.ofPath (p : Path) (text : Text) : Source := ⟨p.display, text, .ofPath p⟩

/-- Which source is the Python program. -/
inductive Order where
  /-- The first. -/
  | asGiven
  /-- The second. -/
  | swapped
  deriving DecidableEq

def Order.name : Order → Text
  | .asGiven => "as_given".toList
  | .swapped => "swapped".toList

structure Roles where
  python : Source
  javascript : Source
  deriving DecidableEq

def Order.assign (o : Order) (first second : Source) : Roles :=
  match o with
  | asGiven => { python := first, javascript := second }
  | swapped => { python := second, javascript := first }

/-- Why the languages did not decide the roles. -/
inductive RoleWarning where
  | noRecognizedExtension
  /-- Only one of the two languages is there. -/
  | missingCounterpart (found : Language)
  deriving DecidableEq

namespace RoleWarning

def code : RoleWarning → Text
  | noRecognizedExtension => "JUSPY0001".toList
  | missingCounterpart _ => "JUSPY0002".toList

def message : RoleWarning → Text
  | noRecognizedExtension => "invalid file extensions detected".toList
  | missingCounterpart _ => "invalid file extension detected".toList

/-- The extensions with their dots, as a list in a sentence. -/
def dotted (exts : List Text) : Text := ", ".toList.intercalate (exts.map ('.' :: ·))

def notes : RoleWarning → List Text
  | noRecognizedExtension =>
    ["Python extensions: ".toList ++ dotted Language.pythonExtensions ++ "; JavaScript extensions: ".toList ++
        dotted Language.javascriptExtensions,
      "treating the first file as Python and the second as JavaScript".toList]
  | missingCounterpart found =>
    let missing : Language := if found = .python then .javascript else .python
    ["found a ".toList ++ found.name ++ " file but no ".toList ++ missing.name ++ " file".toList]

def toDiagnostic (w : RoleWarning) : Diagnostic where
  code := w.code
  severity := .warning
  message := w.message
  place := .nowhere
  notes := w.notes

end RoleWarning

/-- How two sources take their roles. -/
structure Classification where
  order : Order
  warning : Option RoleWarning
  deriving DecidableEq

namespace Classification

def orderOf (a b : Language) : Order :=
  if a = .python then .asGiven
  else if b = .python ∨ a = .javascript then .swapped
  else .asGiven

def warningOf (a b : Language) : Option RoleWarning :=
  let python := a = .python ∨ b = .python
  let javascript := a = .javascript ∨ b = .javascript
  if python ∧ javascript then none
  else if python then some (.missingCounterpart .python)
  else if javascript then some (.missingCounterpart .javascript)
  else some .noRecognizedExtension

def ofLanguages (a b : Language) : Classification := ⟨orderOf a b, warningOf a b⟩

def ofExtensions (a b : Text) : Classification := ofLanguages (.ofExtension a) (.ofExtension b)

end Classification

end Polyglot
