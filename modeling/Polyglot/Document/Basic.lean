/-
  Polyglot.Document.Basic — the one line that runs as either of two programs.

  It evaluates an element of an array of two string literals: the JavaScript program,
  and a Python statement that executes the Python program. The index is written so that
  each language comes to its own element (`selector`). The Python program is escaped
  twice, once for the literal in its statement and once more with the statement.
-/

import Polyglot.Literal.Escaping

namespace Polyglot

/-- The two programs of a document. -/
structure Programs where
  python : Text
  javascript : Text
  deriving DecidableEq

namespace Document

/-- The index of the element: `-1 % 2` is `-1` where the remainder has the sign of the dividend,
    which makes it 0, and `1` where it has the sign of the divisor, which makes it 1. -/
def selector : Text := "(-1 % 2 + 1) >> 1".toList

/-- From the start to the body of the first literal. -/
def opening : Text := "eval([\"".toList

/-- Between the bodies of the two literals. -/
def separator : Text := "\", \"".toList

/-- From the body of the second literal to the end. -/
def closing : Text := "\"][".toList ++ selector ++ "])".toList

/-- Before the body of the literal in the Python statement. -/
def execOpening : Text := "exec('''".toList

/-- After the body of the literal in the Python statement. -/
def execClosing : Text := "''')".toList

/-- The statement that executes a Python program from a string. -/
def execStatement (python : Text) : Text := execOpening ++ Escaping.python.escape python ++ execClosing

/-- The document of two programs. -/
def encode (p : Programs) : Text :=
  opening ++ Escaping.host.escape p.javascript ++ separator ++ Escaping.host.escape (execStatement p.python) ++ closing

end Document

end Polyglot
