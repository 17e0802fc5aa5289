/-
  Polyglot.Main — the command on the file system that there is.
-/

import Polyglot.Command.Response

namespace Polyglot

namespace FileError

/-- An error of the system by its number. -/
def ofCode (code : UInt32) (details : String) : FileError :=
  match code.toNat with
  | 2 => .notFound
  | 17 => .alreadyExists
  | 20 => .notADirectory
  | 21 => .isADirectory
  | 36 => .nameTooLong
  | n => .other (details.toList ++ " (os error ".toList ++ Text.decimal n ++ [')'])

def ofSystem : IO.Error → FileError
  | .noFileOrDirectory _ code details
  | .alreadyExists _ code details
  | .inappropriateType _ code details
  | .invalidArgument _ code details
  | .permissionDenied _ code details
  | .resourceExhausted _ code details
  | .resourceBusy code details
  | .otherError code details => ofCode code details
  | e => .other e.toString.toList

end FileError

namespace Host

def spelled (p : Path) : String := String.ofList p.display

def attempt {α : Type} (act : IO α) : IO (Except FileError α) := do
  try return .ok (← act)
  catch e => return .error (.ofSystem e)

/-- The file system. A path that can be made absolute names something, and with a part after it,
    it names a directory. -/
def system : Host IO where
  pathExists p := return (← attempt (IO.FS.realPath (spelled p))).isOk
  isDirectory p := return (← attempt (IO.FS.realPath (spelled p ++ "/."))).isOk
  read p := attempt do return (← IO.FS.readBinFile (spelled p)).toList
  makeDirectory p := attempt (IO.FS.createDir (spelled p))
  write p data := attempt (IO.FS.writeBinFile (spelled p) (ByteArray.mk data.toArray))

end Host

end Polyglot

def main (args : List String) : IO UInt32 := do
  let response ← Polyglot.Command.invoke Polyglot.Host.system (args.map fun a => a.toUTF8.toList)
  let stderr ← IO.getStderr
  for event in response.trace do
    stderr.putStrLn (String.ofList event.toJson.compact)
  let stdout ← IO.getStdout
  stdout.putStr (String.ofList response.stdout)
  stdout.flush
  stderr.putStr (String.ofList response.stderr)
  return response.code.toUInt32
