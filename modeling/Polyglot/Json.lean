/-
  Polyglot.Json — JSON values and their printed form: two blanks of indentation a
  level, one item or field a line, fields in the order they are given.

  A string has short escapes where JSON has them, `\u00xx` for the other control
  characters below a blank, and everything else as it is.
-/

import Polyglot.Text.Basic

namespace Polyglot

inductive Json where
  | num (n : Nat)
  | bool (b : Bool)
  | str (t : Text)
  | arr (items : List Json)
  | obj (fields : List (Text × Json))

namespace Json

/-- How one character is written in a string. -/
def unit (c : Char) : Text :=
  match c with
  | '"' => ['\\', '"']
  | '\\' => ['\\', '\\']
  | '\x08' => ['\\', 'b']
  | '\x0C' => ['\\', 'f']
  | '\n' => ['\\', 'n']
  | '\r' => ['\\', 'r']
  | '\t' => ['\\', 't']
  | c =>
    if c.toNat < 0x20 then
      ['\\', 'u', '0', '0', Nat.digitChar (c.toNat / 0x10), Nat.digitChar (c.toNat % 0x10)]
    else [c]

def quote (t : Text) : Text := '"' :: t.flatMap unit ++ ['"']

/-- The start of a line at a depth. -/
def newline (depth : Nat) : Text := '\n' :: List.replicate (2 * depth) ' '

mutual

/-- The printed form of a value whose first line stands at `depth`. -/
def prettyAt (depth : Nat) : Json → Text
  | .num n => Text.decimal n
  | .bool true => "true".toList
  | .bool false => "false".toList
  | .str t => quote t
  | .arr [] => "[]".toList
  | .arr (v :: vs) =>
    '[' :: newline (depth + 1) ++ prettyAt (depth + 1) v ++ itemsAt (depth + 1) vs ++ newline depth ++ [']']
  | .obj [] => "\x7b\x7d".toList
  | .obj ((k, v) :: fs) =>
    '\x7b' :: newline (depth + 1) ++ quote k ++ [':', ' '] ++ prettyAt (depth + 1) v ++ fieldsAt (depth + 1) fs ++
      newline depth ++ ['\x7d']

/-- The items after the first. -/
def itemsAt (depth : Nat) : List Json → Text
  | [] => []
  | v :: vs => ',' :: newline depth ++ prettyAt depth v ++ itemsAt depth vs

/-- The fields after the first. -/
def fieldsAt (depth : Nat) : List (Text × Json) → Text
  | [] => []
  | (k, v) :: fs => ',' :: newline depth ++ quote k ++ [':', ' '] ++ prettyAt depth v ++ fieldsAt depth fs

end

def pretty (v : Json) : Text := prettyAt 0 v

mutual

/-- The printed form of a value on one line, without blanks. -/
def compact : Json → Text
  | .num n => Text.decimal n
  | .bool true => "true".toList
  | .bool false => "false".toList
  | .str t => quote t
  | .arr [] => "[]".toList
  | .arr (v :: vs) => '[' :: compact v ++ compactItems vs ++ [']']
  | .obj [] => "\x7b\x7d".toList
  | .obj ((k, v) :: fs) => '\x7b' :: quote k ++ ':' :: compact v ++ compactFields fs ++ ['\x7d']

def compactItems : List Json → Text
  | [] => []
  | v :: vs => ',' :: compact v ++ compactItems vs

def compactFields : List (Text × Json) → Text
  | [] => []
  | (k, v) :: fs => ',' :: quote k ++ ':' :: compact v ++ compactFields fs

end

end Json

end Polyglot
