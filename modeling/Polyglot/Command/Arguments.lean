/-
  Polyglot.Command.Arguments — what the arguments of the command ask for.

  Arguments are read from left to right, and the first that cannot be taken decides.
  Help and version act as soon as they are met. An empty file name is only noticed when
  the next argument is taken, or at the end: an argument that cannot be taken itself is
  reported before it.
-/

import Polyglot.Path
import Polyglot.Text.Plain

namespace Polyglot.Command

inductive Flag where
  | json
  | verify
  | trace
  deriving DecidableEq

/-- The file names that are asked for, in order. -/
inductive Operand where
  | file1
  | file2
  | output
  deriving DecidableEq

inductive UsageError where
  | unexpectedArgument (argument : Text)
  | repeated (flag : Flag)
  /-- An option that takes no value has one attached. -/
  | unexpectedValue (option value : Text)
  | emptyOperand (operand : Operand)
  | missingOperands (operands : List Operand)
  deriving DecidableEq

structure Flags where
  json : Bool
  verify : Bool
  trace : Bool
  deriving DecidableEq

structure Request where
  first : Path
  second : Path
  output : Path
  flags : Flags
  deriving DecidableEq

inductive Invocation where
  | help
  | version
  | misuse (e : UsageError)
  | run (r : Request)
  deriving DecidableEq

def Flag.option : Flag → Text
  | json => "--json".toList
  | verify => "--verify".toList
  | trace => "--trace".toList

def Operand.placeholder : Operand → Text
  | file1 => "<FILE1>".toList
  | file2 => "<FILE2>".toList
  | output => "[OUTPUT]".toList

/-- What arguments hold is quoted without its controls. -/
def UsageError.message : UsageError → Text
  | unexpectedArgument argument => "unexpected argument '".toList ++ argument.plain ++ "' found".toList
  | repeated flag => "the argument '".toList ++ flag.option ++ "' cannot be used multiple times".toList
  | unexpectedValue option value =>
    "unexpected value '".toList ++ value.plain ++ "' for '".toList ++ option ++ "' found; no more were expected".toList
  | emptyOperand operand =>
    "a value is required for '".toList ++ operand.placeholder ++ "' but none was supplied".toList
  | missingOperands operands =>
    "the following required arguments were not provided:".toList ++
      operands.flatMap fun o => "\n  ".toList ++ o.placeholder

def defaultOutput : Path := Utf8.encode "out.py.js".toList

namespace Flags

def none : Flags := ⟨false, false, false⟩

def has (fs : Flags) : Flag → Bool
  | .json => fs.json
  | .verify => fs.verify
  | .trace => fs.trace

def add (fs : Flags) : Flag → Flags
  | .json => { fs with json := true }
  | .verify => { fs with verify := true }
  | .trace => { fs with trace := true }

end Flags

/-! ## One argument -/

/-- An argument for what it looks like. -/
inductive Argument where
  /-- All arguments after it are operands. -/
  | separator
  | flag (f : Flag)
  | help
  | version
  | attached (option value : Text)
  | unknown (shown : Text)
  | operand (p : Path)
  deriving DecidableEq

namespace Argument

def dashes : Bytes := [0x2D, 0x2D]

/-- The option of a name after two dashes. -/
def named? (name : Bytes) : Option Argument :=
  if name = Utf8.encode "json".toList then some (flag .json)
  else if name = Utf8.encode "verify".toList then some (flag .verify)
  else if name = Utf8.encode "trace".toList then some (flag .trace)
  else if name = Utf8.encode "help".toList then some help
  else if name = Utf8.encode "version".toList then some version
  else none

/-- An argument from what follows its two dashes; an equals sign attaches a value. -/
def ofLong (body : Bytes) : Argument :=
  let (name, value) := body.span (· != 0x3D)
  let shown := "--".toList ++ Utf8.lossy name
  match named? name, value with
  | none, _ => unknown shown
  | some a, [] => a
  | some _, _ :: value => attached shown (Utf8.lossy value)

/-- An argument from what follows its one dash: each letter is an option, and the first decides. -/
def ofShort (letters : Bytes) : Argument :=
  match Utf8.pieces letters with
  | .char 'h' :: _ => help
  | .char 'V' :: _ => version
  | .char c :: _ => unknown ['-', c]
  | _ => unknown ('-' :: Utf8.lossy letters)

/-- A dash alone is an operand. -/
def ofBytes (arg : Bytes) : Argument :=
  if arg = dashes then separator
  else match arg with
    | 0x2D :: 0x2D :: body => ofLong body
    | 0x2D :: b :: rest => ofShort (b :: rest)
    | _ => operand arg

end Argument

/-! ## All arguments -/

def Operand.all : List Operand := [.file1, .file2, .output]

/-- What the arguments so far have given. -/
structure Given where
  operands : List Path
  flags : Flags
  operandsOnly : Bool

namespace Given

def nothing : Given := ⟨[], .none, false⟩

def emptyOperand? (g : Given) : Option UsageError :=
  ((Operand.all.zip g.operands).find? (·.2 == [])).map fun (o, _) => .emptyOperand o

/-- Goes on, unless a file name is empty. -/
def checked (g : Given) (next : Invocation) : Invocation :=
  match g.emptyOperand? with
  | some e => .misuse e
  | none => next

def finish (g : Given) : Invocation :=
  match g.operands with
  | [first, second] => .run { first, second, output := defaultOutput, flags := g.flags }
  | [first, second, output] => .run { first, second, output, flags := g.flags }
  | operands => .misuse (.missingOperands ([Operand.file1, .file2].drop operands.length))

def readFrom (g : Given) : List Bytes → Invocation
  | [] => g.checked g.finish
  | arg :: rest =>
    match if g.operandsOnly then .operand arg else Argument.ofBytes arg with
    | .separator => readFrom { g with operandsOnly := true } rest
    | .unknown shown => .misuse (.unexpectedArgument shown)
    | .attached option value => .misuse (.unexpectedValue option value)
    | .help => g.checked .help
    | .version => g.checked .version
    | .flag f =>
      g.checked (if g.flags.has f then .misuse (.repeated f) else readFrom { g with flags := g.flags.add f } rest)
    | .operand p =>
      if g.operands.length < Operand.all.length then
        g.checked (readFrom { g with operands := g.operands ++ [p] } rest)
      else .misuse (.unexpectedArgument p.display)

end Given

/-- What the arguments ask for. -/
def Invocation.ofArguments (args : List Bytes) : Invocation := Given.nothing.readFrom args

end Polyglot.Command
