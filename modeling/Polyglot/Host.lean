/-
  Polyglot.Host — what the program needs of the machine it runs on.

  A host is five operations in some monad: the real file system, or a tree in memory
  (`Polyglot.FileTree`). What the program does with files is written once, over any
  host.
-/

import Polyglot.Path

namespace Polyglot

/-- Why a host refuses an operation. -/
inductive FileError where
  | notFound
  | alreadyExists
  | notADirectory
  | isADirectory
  | nameTooLong
  | other (message : Text)
  deriving DecidableEq

def FileError.message : FileError → Text
  | notFound => "No such file or directory (os error 2)".toList
  | alreadyExists => "File exists (os error 17)".toList
  | notADirectory => "Not a directory (os error 20)".toList
  | isADirectory => "Is a directory (os error 21)".toList
  | nameTooLong => "File name too long (os error 36)".toList
  | other message => message

structure Host (m : Type → Type) where
  pathExists : Path → m Bool
  isDirectory : Path → m Bool
  read : Path → m (Except FileError Bytes)
  /-- Makes one directory, in one that exists. -/
  makeDirectory : Path → m (Except FileError Unit)
  /-- Makes or replaces a file, in a directory that exists. -/
  write : Path → Bytes → m (Except FileError Unit)

namespace Host

variable {m : Type → Type} [Monad m]

/-- Makes a directory unless it is there. -/
def ensureDirectory (host : Host m) (p : Path) : m (Except FileError Unit) := do
  match ← host.makeDirectory p with
  | .ok () => return .ok ()
  | .error e => return if ← host.isDirectory p then .ok () else .error e

/-- Makes the first of some directories, each of which stands in the next. Those above are made
    only if it turns out that one is missing. -/
def makeDirectories (host : Host m) : List Path → m (Except FileError Unit)
  | [] => return .ok ()
  | p :: above => do
    match ← host.makeDirectory p with
    | .ok () => return .ok ()
    | .error .notFound =>
      match ← host.makeDirectories above with
      | .ok () => host.ensureDirectory p
      | .error e => return .error e
    | .error e => return if ← host.isDirectory p then .ok () else .error e

/-- Writes a file and makes the directories on the way to it. -/
def store (host : Host m) (p : Path) (data : Bytes) : m (Except FileError Unit) := do
  match ← host.makeDirectories p.parents with
  | .ok () => host.write p data
  | .error e => return .error e

end Host

end Polyglot
