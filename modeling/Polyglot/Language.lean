/-
  Polyglot.Language — the language of a file, as its extension tells it.
-/

import Polyglot.Path

namespace Polyglot

inductive Language where
  | python
  | javascript
  | unknown
  deriving DecidableEq

namespace Language

def pythonExtensions : List Text := ["py".toList]

def javascriptExtensions : List Text := ["js".toList, "cjs".toList, "mjs".toList]

/-- Reads an extension with or without its dot, in any ASCII case. -/
def ofExtension (ext : Text) : Language :=
  let bare := match ext with
    | '.' :: rest => rest
    | _ => ext
  let lower := bare.map Char.toLower
  if lower ∈ pythonExtensions then python
  else if lower ∈ javascriptExtensions then javascript
  else unknown

/-- A path without an extension, or with one that is not text, is of unknown language. -/
def ofPath (p : Path) : Language :=
  match p.extension?.map Utf8.decode with
  | some (.ok ext) => ofExtension ext
  | _ => unknown

def name : Language → Text
  | python => "python".toList
  | javascript => "javascript".toList
  | unknown => "unknown".toList

end Language

end Polyglot
