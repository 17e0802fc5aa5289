/-
  Polyglot.Path — file paths as bytes.

  A path is cut at its slashes into parts. An empty part or a part `.` leads nowhere
  else, so the components of a path are the other parts. A file's name is the last
  component, and its extension is what follows the last dot of the name, if something
  stands before that dot.

  `prefixes` are the paths, as written, that a path passes through on its way; of a
  path whose file is to be made they are the directories that may be missing.
-/

import Polyglot.Text.Utf8.Basic

namespace Polyglot

abbrev Path := Bytes

namespace Path

def slash : UInt8 := 0x2F

def dot : UInt8 := 0x2E

/-- The part that names the directory it stands in. -/
def here : Bytes := [dot]

/-- The part that names the directory above. -/
def above : Bytes := [dot, dot]

/-- What stands between the slashes. -/
def parts (p : Path) : List Bytes := p.splitOn slash

/-- A part that leads nowhere else. -/
def isIdle (part : Bytes) : Bool := part == [] || part == here

def components (p : Path) : List Bytes := p.parts.filter (!isIdle ·)

/-- The name of the file or directory; a path that ends by going up has none. -/
def fileName? (p : Path) : Option Bytes :=
  match p.components.getLast? with
  | some name => if name = above then none else some name
  | none => none

/-- What follows the last dot of a name, if there is a stem before it. -/
def extensionOf? (name : Bytes) : Option Bytes :=
  let (ext, rest) := name.reverse.span (· != dot)
  match rest with
  | [] | [_] => none
  | _ :: _ :: _ => some ext.reverse

def extension? (p : Path) : Option Bytes := p.fileName?.bind extensionOf?

/-- A path as it is shown to people. -/
def display (p : Path) : Text := Utf8.lossy p

/-- The walk of `prefixes` over the parts after the path `done`. -/
def prefixesFrom (done : Path) : List Bytes → List Path
  | [] => []
  | part :: rest =>
    let next := done ++ slash :: part
    if isIdle part then prefixesFrom next rest else next :: prefixesFrom next rest

/-- The paths that a path passes through, itself included, each as written and without idle parts
    at its end. The root and a leading `.` count. -/
def prefixes (p : Path) : List Path :=
  match p.parts with
  | [] | [[]] => []
  | [] :: rest => [slash] :: prefixesFrom [] rest
  | first :: rest => first :: prefixesFrom first rest

/-- The directories on the way to what the path names, nearest first. -/
def parents (p : Path) : List Path := p.prefixes.dropLast.reverse

end Path

end Polyglot
