/-
  Polyglot.Command.Response — what the command says and how it ends.

  Without `--json`, progress goes to standard output and diagnostics to standard error,
  each followed by a blank line. With it, standard output is one JSON report and
  standard error stays empty. Trace events come on top of either.
-/

import Polyglot.Command.Run
import Polyglot.Diagnostic.Rendering

namespace Polyglot.Command

structure Response where
  /-- 0 for success, 1 for a failed run, 2 for arguments that ask for nothing. -/
  code : Nat
  stdout : Text
  stderr : Text
  trace : List Event

def versionText : Text := "juspy 0.1.0\n".toList

def usageText : Text := "Usage: juspy [OPTIONS] <FILE1> <FILE2> [OUTPUT]\n".toList

def helpText : Text :=
  "Merges Python and JavaScript files into a single file that runs under either interpreter.\n\n".toList ++
  usageText ++
  "
Arguments:
  <FILE1>   First input file (.py, .js, .cjs or .mjs)
  <FILE2>   Second input file (.py, .js, .cjs or .mjs)
  [OUTPUT]  Where to write the merged file. Parent directories are created [default: out.py.js]

Options:
      --json     Print a JSON report on stdout instead of progress lines
      --verify   Check that the merged file decodes back to both inputs before writing it
      --trace    Emit tracing events (JSON) on stderr
  -h, --help     Print help
  -V, --version  Print version
".toList

namespace Outcome

def schemaVersion : Nat := 1

/-- The report of a run that was to write to `output`. -/
def toJson (output : Text) (o : Outcome) : Json :=
  .obj (
    [("schema_version".toList, .num schemaVersion), ("output".toList, .str output)] ++
    Diagnostic.optionalField "python".toList (o.assignment.map fun a => .str a.python) ++
    Diagnostic.optionalField "javascript".toList (o.assignment.map fun a => .str a.javascript) ++
    Diagnostic.optionalField "order".toList (o.assignment.map fun a => .str a.order.name) ++
    [("written".toList, .bool o.written), ("diagnostics".toList, .arr (o.diagnostics.map (·.toJson)))])

end Outcome

/-- The inputs of a run as diagnostics refer to them. -/
def Account.sources (a : Account) (r : Request) : Sources :=
  .ofList [(r.first.display, a.texts.map (·.1)), (r.second.display, a.texts.map (·.2))]

/-- What is said before the run. -/
def greeting (r : Request) : Text :=
  "Input File 1: ".toList ++ r.first.display ++ "\nInput File 2: ".toList ++ r.second.display ++
    "\nOutput File: ".toList ++ r.output.display ++ ['\n']

/-- What is said after a run that has written its file. -/
def farewell (r : Request) : Text := "Merged files written to ".toList ++ r.output.display ++ ['\n']

namespace Response

def ofAccount (r : Request) (a : Account) : Response where
  code := if a.outcome.failed then 1 else 0
  stdout :=
    if r.flags.json then (a.outcome.toJson r.output.display).pretty ++ ['\n']
    else greeting r ++ if a.outcome.written then farewell r else []
  stderr :=
    if r.flags.json then []
    else a.outcome.diagnostics.flatMap fun d => d.render (a.sources r) ++ ['\n']
  trace := if r.flags.trace then a.events else []

def ofMisuse (e : UsageError) : Response where
  code := 2
  stdout := []
  stderr := "error: ".toList ++ e.message ++ "\n\n".toList ++ usageText ++
    "\nFor more information, try '--help'.\n".toList
  trace := []

end Response

/-- Runs the command with some arguments on some machine. -/
def invoke {m : Type → Type} [Monad m] (host : Host m) (args : List Bytes) : m Response :=
  match Invocation.ofArguments args with
  | .help => return { code := 0, stdout := helpText, stderr := [], trace := [] }
  | .version => return { code := 0, stdout := versionText, stderr := [], trace := [] }
  | .misuse e => return .ofMisuse e
  | .run r => return .ofAccount r (← run host r)

end Polyglot.Command
