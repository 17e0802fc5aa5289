/-
  Polyglot.Command.Trace — what a run notes on its way, for those who ask to see it.
-/

import Polyglot.Merge

namespace Polyglot.Command

inductive Event where
  /-- The languages of the two inputs did not decide their roles. -/
  | undecided (warning : RoleWarning) (first second : Text)
  | classified (order : Order) (first second : Text)
  /-- The document was made, of texts of these lengths in bytes. -/
  | encoded (python javascript document : Nat)
  | verified
  deriving DecidableEq

namespace Event

def level : Event → Text
  | undecided .. => "WARN".toList
  | classified .. | encoded .. | verified => "DEBUG".toList

/-- The part of the program that an event comes from. -/
def target : Event → Text
  | undecided .. | classified .. => "juspy::classify".toList
  | encoded .. => "juspy::encode".toList
  | verified => "juspy".toList

def orderLabel : Order → Text
  | .asGiven => "AsGiven".toList
  | .swapped => "Swapped".toList

def fields : Event → List (Text × Json)
  | undecided warning first second =>
    [("message".toList, .str warning.message), ("code".toList, .str warning.code), ("first".toList, .str first),
      ("second".toList, .str second)]
  | classified order first second =>
    [("message".toList, .str "classified inputs".toList), ("order".toList, .str (orderLabel order)),
      ("first".toList, .str first), ("second".toList, .str second)]
  | encoded python javascript document =>
    [("message".toList, .str "encoded polyglot document".toList), ("python_len".toList, .num python),
      ("js_len".toList, .num javascript), ("document_len".toList, .num document)]
  | verified => [("message".toList, .str "verified merged document".toList)]

def toJson (e : Event) : Json :=
  .obj [("level".toList, .str e.level), ("fields".toList, .obj e.fields), ("target".toList, .str e.target)]

/-- What is noted about a merge of two sources. -/
def ofMerged (first second : Source) (merged : Merged) : List Event :=
  (merged.classification.warning.map (undecided · first.name second.name)).toList ++
    [classified merged.classification.order first.name second.name,
      encoded (Text.byteLen merged.roles.python.text) (Text.byteLen merged.roles.javascript.text)
        (Text.byteLen merged.document)]

end Event

end Polyglot.Command
