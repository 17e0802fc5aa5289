/-
  Polyglot.Command.Run — two files become one.

  A run looks whether both files are there, reads them, merges them, checks the document
  if asked to, and writes it. The first stage that fails ends the run. No file is
  written before all else has succeeded.
-/

import Polyglot.Command.Arguments
import Polyglot.Command.Trace
import Polyglot.Document.Reading
import Polyglot.Host

namespace Polyglot.Command

/-- Why a run ends without a merged file. -/
inductive Failure where
  | missing (paths : List Path)
  | unreadable (path : Path) (cause : FileError)
  | notText (file : FileId) (cause : Utf8.DecodeError)
  /-- The document cannot be read back. -/
  | undecodable (cause : ReadError)
  /-- The document reads back as other programs. -/
  | differs
  | unwritable (path : Path) (cause : FileError)
  deriving DecidableEq

namespace Failure

def code : Failure → Text
  | missing _ => "JUSPY1001".toList
  | unreadable .. | notText .. => "JUSPY1002".toList
  | unwritable .. => "JUSPY1003".toList
  | undecodable _ | differs => "JUSPY1004".toList

def message : Failure → Text
  | missing _ => "one or more input files do not exist".toList
  | unreadable path cause => "failed to read ".toList ++ path.display ++ ": ".toList ++ cause.message
  | notText _ cause => "input is not valid UTF-8: ".toList ++ cause.message
  | undecodable _ => "merged file does not decode".toList
  | differs => "merged file does not decode back to the inputs".toList
  | unwritable path cause => "failed to write ".toList ++ path.display ++ ": ".toList ++ cause.message

def place : Failure → Place
  | notText file _ => .file file
  | _ => .nowhere

def notes : Failure → List Text
  | missing paths => paths.map fun p => "not found: ".toList ++ p.display
  | undecodable cause => [cause.message]
  | _ => []

def toDiagnostic (f : Failure) : Diagnostic where
  code := f.code
  severity := .error
  message := f.message
  place := f.place
  notes := f.notes

end Failure

/-- The names of the two programs, once it is known which is which. -/
structure Assignment where
  python : Text
  javascript : Text
  order : Order
  deriving DecidableEq

structure Outcome where
  assignment : Option Assignment
  written : Bool
  diagnostics : List Diagnostic
  deriving DecidableEq

namespace Outcome

def ofMerged (m : Merged) : Outcome where
  assignment := some ⟨m.roles.python.name, m.roles.javascript.name, m.classification.order⟩
  written := false
  diagnostics := m.diagnostics

def fail (o : Outcome) (f : Failure) : Outcome := { o with diagnostics := o.diagnostics ++ [f.toDiagnostic] }

def failed (o : Outcome) : Bool := o.diagnostics.any (·.isError)

end Outcome

/-- What a run leaves to be told. -/
structure Account where
  outcome : Outcome
  events : List Event
  /-- The texts of the inputs, if both could be read. -/
  texts : Option (Text × Text)

/-- The check that a document holds the programs it was made of. -/
def verify (m : Merged) : Except Failure Unit :=
  match Document.read m.document with
  | .error e => .error (.undecodable e)
  | .ok p => if p = m.roles.programs then .ok () else .error .differs

variable {m : Type → Type} [Monad m]

def readInput (host : Host m) (p : Path) (file : FileId) : m (Except Failure Text) := do
  match ← host.read p with
  | .error e => return .error (.unreadable p e)
  | .ok data => return (Utf8.decode data).mapError (.notText file)

/-- The texts of the two inputs. -/
def gather (host : Host m) (r : Request) : m (Except Failure (Text × Text)) := do
  let firstThere ← host.pathExists r.first
  let secondThere ← host.pathExists r.second
  let missing := (if firstThere then [] else [r.first]) ++ (if secondThere then [] else [r.second])
  if !missing.isEmpty then return .error (.missing missing)
  else
    match ← readInput host r.first firstFile with
    | .error f => return .error f
    | .ok first =>
      match ← readInput host r.second secondFile with
      | .error f => return .error f
      | .ok second => return .ok (first, second)

/-- Checks a merged document if asked to, and writes it. -/
def deliver (host : Host m) (r : Request) (merged : Merged) : m (Except Failure Unit) := do
  match if r.flags.verify then verify merged else .ok () with
  | .error f => return .error f
  | .ok () =>
    match ← host.store r.output (Utf8.encode merged.document) with
    | .error e => return .error (.unwritable r.output e)
    | .ok () => return .ok ()

def run (host : Host m) (r : Request) : m Account := do
  match ← gather host r with
  | .error f => return { outcome := Outcome.fail ⟨none, false, []⟩ f, events := [], texts := none }
  | .ok (firstText, secondText) =>
    let first := Source.ofPath r.first firstText
    let second := Source.ofPath r.second secondText
    let merged := merge first second
    let outcome := Outcome.ofMerged merged
    let checked := if r.flags.verify ∧ (verify merged).isOk then [Event.verified] else []
    let events := Event.ofMerged first second merged ++ checked
    let texts := some (firstText, secondText)
    match ← deliver host r merged with
    | .error f => return { outcome := outcome.fail f, events, texts }
    | .ok () => return { outcome := { outcome with written := true }, events, texts }

end Polyglot.Command
