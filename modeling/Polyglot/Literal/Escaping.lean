/-
  Polyglot.Literal.Escaping — one-letter escapes in the bodies of string literals.

  An escaping writes some characters as a backslash and a letter and all others as they
  are, in one pass over the text, so what it writes is never read again. Two escapings
  are used: `host` for the body of a double-quoted literal and `python` for the body of
  a triple-quoted one.

  `unescape_escape`: what `escape` writes reads back as the text. A body that is not
  such a sequence of units is refused at its leftmost bad backslash.
-/

import Polyglot.Text.Basic

namespace Polyglot

/-- The letter that stands after a backslash for each escaped character, and back. -/
structure Escaping where
  letterOf : Char → Option Char
  charOf : Char → Option Char
  charOf_eq_some : ∀ l c, charOf l = some c ↔ letterOf c = some l
  letterOf_backslash : letterOf '\\' ≠ none

/-- Why a body is not the written form of any text. -/
inductive EscapeError where
  /-- The backslash at `offset` is followed by a character that is no letter of the escaping. -/
  | invalidEscape (offset : Nat) (letter : Char)
  | trailingBackslash
  deriving DecidableEq

def EscapeError.message : EscapeError → Text
  | .invalidEscape offset letter =>
    "unexpected escape `\\".toList ++ letter :: "` at ".toList ++ Text.decimal offset
  | .trailingBackslash => "literal ends with a lone backslash".toList

namespace Escaping

/-- Backslash, line feed and double quote; a carriage return stays as it is. -/
def host : Escaping where
  letterOf
    | '\\' => some '\\'
    | '\n' => some 'n'
    | '"' => some '"'
    | _ => none
  charOf
    | '\\' => some '\\'
    | 'n' => some '\n'
    | '"' => some '"'
    | _ => none
  charOf_eq_some l c := by grind
  letterOf_backslash := by decide

/-- Backslash, single quote and double quote; a line feed stays as it is. -/
def python : Escaping where
  letterOf
    | '\\' => some '\\'
    | '\'' => some '\''
    | '"' => some '"'
    | _ => none
  charOf
    | '\\' => some '\\'
    | '\'' => some '\''
    | '"' => some '"'
    | _ => none
  charOf_eq_some l c := by grind
  letterOf_backslash := by decide

/-- How one character is written. -/
def unit (e : Escaping) (c : Char) : Text :=
  match e.letterOf c with
  | some l => ['\\', l]
  | none => [c]

/-- The body that stands for `t`. -/
def escape (e : Escaping) (t : Text) : Text := t.flatMap e.unit

/-- Writes the body that stands for a text behind what is in `out` already. -/
def escapeOnto (e : Escaping) (out : Text) : Text → Text
  | [] => out
  | c :: t => escapeOnto e (out ++ e.unit c) t

/-- The walk of `unescape`; `done` holds, last first, the text of the `offset` bytes read. -/
def unescapeOnto (e : Escaping) (done : Text) (offset : Nat) : Text → Except EscapeError Text
  | [] => .ok done.reverse
  | c :: rest =>
    if c = '\\' then
      match rest with
      | [] => .error .trailingBackslash
      | l :: rest =>
        match e.charOf l with
        | some c => unescapeOnto e (c :: done) (offset + 1 + l.utf8Size) rest
        | none => .error (.invalidEscape offset l)
    else unescapeOnto e (c :: done) (offset + c.utf8Size) rest

/-- The text that a body stands for. -/
def unescape (e : Escaping) (body : Text) : Except EscapeError Text := e.unescapeOnto [] 0 body

@[simp] theorem escape_nil (e : Escaping) : e.escape [] = [] := rfl

theorem escape_cons (e : Escaping) (c : Char) (t : Text) : e.escape (c :: t) = e.unit c ++ e.escape t := rfl

theorem escape_append (e : Escaping) (s t : Text) : e.escape (s ++ t) = e.escape s ++ e.escape t :=
  List.flatMap_append

/-- What is in `out` already is not touched. -/
theorem escapeOnto_eq (e : Escaping) (out t : Text) : e.escapeOnto out t = out ++ e.escape t := by
  induction t generalizing out with
  | nil => simp [escapeOnto]
  | cons c t ih => rw [escapeOnto, ih, escape_cons, List.append_assoc]

theorem unescapeOnto_of_ne (e : Escaping) (done : Text) (offset : Nat) {c : Char} (h : c ≠ '\\') (rest : Text) :
    e.unescapeOnto done offset (c :: rest) = e.unescapeOnto (c :: done) (offset + c.utf8Size) rest := by
  cases rest <;> simp [unescapeOnto, h]

theorem unescapeOnto_backslash (e : Escaping) (done : Text) (offset : Nat) (l : Char) (rest : Text) :
    e.unescapeOnto done offset ('\\' :: l :: rest) =
      match e.charOf l with
      | some c => e.unescapeOnto (c :: done) (offset + 1 + l.utf8Size) rest
      | none => .error (.invalidEscape offset l) := by
  rw [unescapeOnto, if_pos rfl]

/-- A written unit is read as its character, whatever follows. -/
theorem unescapeOnto_unit (e : Escaping) (done : Text) (offset : Nat) (c : Char) (rest : Text) :
    e.unescapeOnto done offset (e.unit c ++ rest) =
      e.unescapeOnto (c :: done) (offset + Text.byteLen (e.unit c)) rest := by
  rw [unit]
  split
  · rename_i l hl
    have hc := (e.charOf_eq_some l c).2 hl
    have h1 : '\\'.utf8Size = 1 := rfl
    simp [unescapeOnto_backslash, hc, h1, Nat.add_assoc]
  · rename_i hl
    have hne : c ≠ '\\' := by intro hx; subst hx; exact e.letterOf_backslash hl
    simp [unescapeOnto_of_ne, hne]

theorem unescapeOnto_escape (e : Escaping) (done : Text) (offset : Nat) (t rest : Text) :
    e.unescapeOnto done offset (e.escape t ++ rest) =
      e.unescapeOnto (t.reverse ++ done) (offset + Text.byteLen (e.escape t)) rest := by
  induction t generalizing done offset with
  | nil => rfl
  | cons c t ih =>
    rw [escape_cons, List.append_assoc, unescapeOnto_unit, ih]
    simp [Nat.add_assoc]

theorem unescape_escape (e : Escaping) (t : Text) : e.unescape (e.escape t) = .ok t := by
  have := e.unescapeOnto_escape [] 0 t []
  simpa [unescape, unescapeOnto] using this

end Escaping

end Polyglot
