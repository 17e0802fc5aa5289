/-
  Polyglot.FileTree — directories and files in memory, and how paths name them.

  A path is walked part by part from the root or from the working directory. Each part
  but the last must lead to a directory; an idle part stays where it is but needs a
  directory too, so `file/` and `file/.` name nothing. There are no links.

  Each operation gives its answer and the tree afterwards. Only `makeDirectory` and
  `write` change the tree, each in one entry (`FileTree.put`).
-/

import Polyglot.Host

namespace Polyglot

/-- The names on the way from the root. -/
abbrev Location := List Bytes

inductive Node where
  | directory
  | file (data : Bytes)
  deriving DecidableEq

/-- What there is, each at its location. The root has no entry. -/
structure FileTree where
  workdir : Location
  entries : List (Location × Node)

namespace FileTree

/-- The working directory and those above it, with nothing in them. -/
def empty (workdir : Location) : FileTree where
  workdir
  entries := (List.range workdir.length).map fun k => (workdir.take (k + 1), .directory)

def node? (t : FileTree) (l : Location) : Option Node := if l = [] then some .directory else t.entries.lookup l

/-- Makes or replaces an entry. -/
def put (t : FileTree) (l : Location) (n : Node) : FileTree :=
  { t with entries := (l, n) :: t.entries.filter (·.1 != l) }

/-! ## Walking -/

/-- The longest name that an entry can have. -/
def nameLimit : Nat := 255

/-- A path of this length or more is refused. -/
def pathLimit : Nat := 4096

/-- From a location to what a part leads to there. -/
def step (t : FileTree) (l : Location) (part : Bytes) : Except FileError Location :=
  if t.node? l ≠ some .directory then .error .notADirectory
  else if Path.isIdle part then .ok l
  else if part = Path.above then .ok l.dropLast
  else if nameLimit < part.length then .error .nameTooLong
  else if (t.node? (l ++ [part])).isNone then .error .notFound
  else .ok (l ++ [part])

/-- Where a path starts. -/
def startOf (t : FileTree) (p : Path) : Location := if p.head? = some Path.slash then [] else t.workdir

def walk (t : FileTree) (p : Path) (parts : List Bytes) : Except FileError Location :=
  if p = [] then .error .notFound
  else if pathLimit ≤ p.length then .error .nameTooLong
  else parts.foldlM t.step (t.startOf p)

/-- What a path names. -/
def resolve (t : FileTree) (p : Path) : Except FileError Location := t.walk p p.parts

/-- Where an entry is to be made. -/
inductive Slot where
  /-- The path ends in a way to go and names a directory that is there. -/
  | directory
  /-- A name in a directory that is there. -/
  | entry (within : Location) (name : Bytes)

/-- Follows a path up to its last part. -/
def slot (t : FileTree) (p : Path) : Except FileError Slot :=
  match p.parts.reverse.dropWhile (· == []) with
  | [] => (t.walk p []).map fun _ => .directory
  | name :: way => do
    let within ← t.walk p way.reverse
    if t.node? within ≠ some .directory then throw .notADirectory
    else if name = Path.here ∨ name = Path.above then return .directory
    else return .entry within name

/-! ## Operations -/

def pathExists (t : FileTree) (p : Path) : Bool := (t.resolve p).isOk

def isDirectory (t : FileTree) (p : Path) : Bool :=
  match t.resolve p with
  | .ok l => t.node? l == some .directory
  | .error _ => false

def read (t : FileTree) (p : Path) : Except FileError Bytes := do
  match t.node? (← t.resolve p) with
  | some (.file data) => return data
  | _ => throw .isADirectory

def makeDirectory (t : FileTree) (p : Path) : Except FileError Unit × FileTree :=
  match t.slot p with
  | .error e => (.error e, t)
  | .ok .directory => (.error .alreadyExists, t)
  | .ok (.entry within name) =>
    if nameLimit < name.length then (.error .nameTooLong, t)
    else if (t.node? (within ++ [name])).isSome then (.error .alreadyExists, t)
    else (.ok (), t.put (within ++ [name]) .directory)

/-- A slash after the name asks for a directory, which a file never is. -/
def write (t : FileTree) (p : Path) (data : Bytes) : Except FileError Unit × FileTree :=
  match t.slot p with
  | .error e => (.error e, t)
  | .ok .directory => (.error .isADirectory, t)
  | .ok (.entry within name) =>
    if p.getLast? = some Path.slash then (.error .isADirectory, t)
    else if nameLimit < name.length then (.error .nameTooLong, t)
    else if t.node? (within ++ [name]) = some .directory then (.error .isADirectory, t)
    else (.ok (), t.put (within ++ [name]) (.file data))

/-- A tree as the machine that a program runs on. -/
def host : Host (StateM FileTree) where
  pathExists p t := (t.pathExists p, t)
  isDirectory p t := (t.isDirectory p, t)
  read p t := (t.read p, t)
  makeDirectory p t := t.makeDirectory p
  write p data t := t.write p data

/-! ## Listing -/

/-- The path of a location below the working directory, seen from there. -/
def pathOf? (t : FileTree) (l : Location) : Option Path :=
  match t.workdir.isPrefixOf? l with
  | none | some [] => none
  | some names => some ([Path.slash].intercalate names)

/-- The directories below the working directory, in the order of their paths. -/
def directories (t : FileTree) : List Path :=
  let ps := t.entries.filterMap fun (l, n) => if n = .directory then t.pathOf? l else none
  ps.mergeSort fun a b => decide (a ≤ b)

/-- The files below the working directory, in the order of their paths. -/
def files (t : FileTree) : List (Path × Bytes) :=
  let fs := t.entries.filterMap fun (l, n) => match n with
    | .file data => (t.pathOf? l).map fun p => (p, data)
    | .directory => none
  fs.mergeSort fun a b => decide (a.1 ≤ b.1)

end FileTree

end Polyglot
