/-
  Polyglot.Diagnostic.Rendering — a diagnostic as lines of text.

  A headline, then what it is about, then its notes. About a range: where it starts and,
  after a blank row, each line it touches with carets below, all behind a gutter for the
  line numbers. The message stands behind the first carets once more.
-/

import Polyglot.Diagnostic.Snippet

namespace Polyglot

/-- What is known of the files that diagnostics are about. -/
structure Sources where
  name? : FileId → Option Text
  text? : FileId → Option Text

/-- Files by their number: the name of each, and its text if it could be read. -/
def Sources.ofList (files : List (Text × Option Text)) : Sources where
  name? id := files[id]?.map (·.1)
  text? id := files[id]?.bind (·.2)

def Sources.nameOf (s : Sources) (file : FileId) : Text := (s.name? file).getD "<unknown file>".toList

namespace Row

/-- A character of a line as it is shown: no tab, carriage return or NUL reaches the terminal. -/
def shown (c : Char) : Text :=
  if c = '\t' then List.replicate Snippet.tabWidth ' '
  else if c = '\r' then ['\u240D']
  else if c = '\x00' then ['\u2400']
  else [c]

/-- The line behind its number. -/
def sourceLine (r : Row) (gutter : Nat) : Text :=
  (Text.decimal r.number).leftpad gutter ' ' ++ " | ".toList ++ r.line.flatMap shown

/-- The carets, with a label behind them. -/
def caretLine (r : Row) (gutter : Nat) (label : Text) : Text :=
  List.replicate gutter ' ' ++ " | ".toList ++ List.replicate r.column ' ' ++ List.replicate r.carets '^' ++
    (if label.isEmpty then [] else ' ' :: label)

end Row

namespace Snippet

/-- The width of the greatest line number. -/
def gutter (s : Snippet) : Nat :=
  match s.rows.getLast? with
  | some r => (Text.decimal r.number).length
  | none => 0

/-- The lines of the rows; the label stands in the first. -/
def rowLines (gutter : Nat) (label : Text) : List Row → List Text
  | [] => []
  | r :: rows => r.sourceLine gutter :: r.caretLine gutter label :: rowLines gutter [] rows

def lines (s : Snippet) (label : Text) : List Text := "  |".toList :: rowLines s.gutter label s.rows

end Snippet

namespace Diagnostic

def headline (d : Diagnostic) : Text :=
  d.severity.name ++ '[' :: d.code ++ "]: ".toList ++ d.message

/-- What a diagnostic is about. -/
def placeLines (sources : Sources) (d : Diagnostic) : List Text :=
  match d.place with
  | .nowhere => []
  | .file id => [" --> ".toList ++ sources.nameOf id]
  | .span s =>
    let head := " --> ".toList ++ sources.nameOf s.file
    match sources.text? s.file with
    | none => [head ++ ":?:?".toList, "  | (source unavailable)".toList]
    | some t =>
      let snippet := Snippet.of t s.range
      (head ++ ':' :: Text.decimal snippet.line ++ ':' :: Text.decimal snippet.column) :: snippet.lines d.message

def noteLines (d : Diagnostic) : List Text := d.notes.map ("= note: ".toList ++ ·)

def lines (sources : Sources) (d : Diagnostic) : List Text :=
  d.headline :: d.placeLines sources ++ d.noteLines

/-- The lines of a diagnostic, each with a line feed. -/
def render (sources : Sources) (d : Diagnostic) : Text := (d.lines sources).flatMap (· ++ ['\n'])

end Diagnostic

end Polyglot
