/-
  Polyglot.Hazard — characters of a program that reach the document as they are and
  make it fail: a carriage return ends a literal in both languages, and a NUL is
  refused anywhere in a Python file.

  A hazard is a longest run of one of the two. The document is made all the same; a
  hazard is only reported.
-/

import Polyglot.Diagnostic.Basic

namespace Polyglot

inductive HazardKind where
  | carriageReturn
  | nul
  deriving DecidableEq

namespace HazardKind

def ofChar? (c : Char) : Option HazardKind :=
  if c = '\r' then some carriageReturn
  else if c = '\x00' then some nul
  else none

def code : HazardKind → Text
  | carriageReturn => "JUSPY0003".toList
  | nul => "JUSPY0004".toList

def message : HazardKind → Text
  | carriageReturn => "carriage return will not be escaped".toList
  | nul => "NUL character will not be escaped".toList

def advice : HazardKind → Text
  | carriageReturn => "the merged file will not parse; convert line endings to LF first".toList
  | nul => "Python rejects source files containing NUL bytes; write the escape \\x00 instead".toList

end HazardKind

/-- A run of one kind, from one byte position to another. -/
structure Hazard where
  kind : HazardKind
  start : Nat
  stop : Nat
  deriving DecidableEq

namespace Hazard

def len (h : Hazard) : Nat := h.stop - h.start

def isEmpty (h : Hazard) : Bool := h.start == h.stop

/-- Adds a character of a kind at `pos` to the runs found so far, last first. -/
def extend (found : List Hazard) (kind : HazardKind) (pos : Nat) : List Hazard :=
  match found with
  | last :: before =>
    if last.stop = pos ∧ last.kind = kind then { last with stop := pos + 1 } :: before
    else ⟨kind, pos, pos + 1⟩ :: found
  | [] => [⟨kind, pos, pos + 1⟩]

/-- The walk of `scan` over what stands at `pos`. -/
def scanOnto (found : List Hazard) (pos : Nat) : Text → List Hazard
  | [] => found.reverse
  | c :: t =>
    match HazardKind.ofChar? c with
    | some kind => scanOnto (extend found kind pos) (pos + c.utf8Size) t
    | none => scanOnto found (pos + c.utf8Size) t

/-- The hazards of a text, in order. -/
def scan (t : Text) : List Hazard := scanOnto [] 0 t

def toDiagnostic (h : Hazard) (file : FileId) : Diagnostic where
  code := h.kind.code
  severity := .warning
  message := h.kind.message
  place := .span ⟨file, .ofOffsets h.start h.stop⟩
  notes := [h.kind.advice]

end Hazard

end Polyglot
