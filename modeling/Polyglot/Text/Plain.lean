/-
  Polyglot.Text.Plain — text from outside, made fit to be shown in a message.

  Control sequences (escape sequences, control strings) and control characters are left
  out; tab, line feed, form feed and carriage return stay. A sequence that is cut off
  by the end takes all that follows its start with it.

  A blank control within an escape or control sequence is shown all the same, and the
  visible text after it with it. The next hidden character takes the sequence up where it
  was, unless a character outside ASCII was shown, which ends it.

  `plain_of_visible`: text without controls stays as it is.
-/

import Polyglot.Text.Utf8.Basic

namespace Polyglot.Text

/-- How far into a control sequence a text is. -/
inductive Sequence where
  | outside
  /-- After the escape character. -/
  | escape
  | escapeIntermediate
  /-- A control sequence, up to its final character. -/
  | control
  | deviceEntry
  | deviceParameters
  | deviceIntermediate
  /-- A device control string after its head. -/
  | deviceData
  /-- A start of string, privacy message or application program command. -/
  | string
  | systemCommand
  deriving DecidableEq

namespace Sequence

def isBetween (c low high : Char) : Bool := low ≤ c && c ≤ high

/-- The terminator of control strings as a byte, also where it is one of several of a character. -/
def hasTerminator (c : Char) : Bool := (Utf8.encodeChar c).contains 0x9C

/-- Past one character, which is none of those that act in every sequence. -/
def next (s : Sequence) (c : Char) : Sequence :=
  match s with
  | outside => outside
  | escape =>
    if isBetween c ' ' '/' then escapeIntermediate
    else if c = '[' then control
    else if c = ']' then systemCommand
    else if c = 'P' then deviceEntry
    else if c = 'X' ∨ c = '^' ∨ c = '_' then string
    else if isBetween c '0' '~' then outside
    else escape
  | escapeIntermediate => if isBetween c '0' '~' then outside else escapeIntermediate
  | control => if isBetween c '@' '~' then outside else control
  | deviceEntry =>
    if isBetween c ' ' '/' then deviceIntermediate
    else if isBetween c '0' '?' then deviceParameters
    else if isBetween c '@' '~' then deviceData
    else deviceEntry
  | deviceParameters =>
    if isBetween c ' ' '/' then deviceIntermediate
    else if isBetween c '<' '~' then deviceData
    else deviceParameters
  | deviceIntermediate => if isBetween c '0' '~' then deviceData else deviceIntermediate
  | deviceData => if hasTerminator c then outside else deviceData
  | string => if hasTerminator c then outside else string
  | systemCommand => if c = '\x07' then outside else systemCommand

/-- Whether a blank control within the sequence is shown. -/
def showsBlanks : Sequence → Bool
  | escape | escapeIntermediate | control => true
  | _ => false

end Sequence

/-- A control that is shown: tab, line feed, form feed, carriage return. -/
def isBlankControl (c : Char) : Bool := c = '\t' || c = '\n' || c = '\x0C' || c = '\r'

/-- Anything that is shown outside sequences. -/
def isVisible (c : Char) : Bool := isBlankControl c || (' ' ≤ c && c ≠ '\x7F')

/-- The walk of `plain`; `done` holds what is shown so far, last first, and `showing` tells whether
    the character before was. -/
def plainOnto (done : Text) (s : Sequence) (showing : Bool) : Text → Text
  | [] => done.reverse
  | c :: t =>
    if showing && isVisible c then
      plainOnto (c :: done) (if '\x7F' < c then .outside else s) true t
    else if c = '\x1B' then plainOnto done .escape false t
    else if c = '\x18' ∨ c = '\x1A' then plainOnto done .outside false t
    else if if s = .outside then isVisible c else s.showsBlanks && isBlankControl c then
      plainOnto (c :: done) s true t
    else plainOnto done (s.next c) false t

/-- The text without control sequences and controls. -/
def plain (t : Text) : Text := plainOnto [] .outside false t

theorem plainOnto_of_visible (done : Text) (showing : Bool) {t : Text} (h : t.all isVisible = true) :
    plainOnto done .outside showing t = done.reverse ++ t := by
  induction t generalizing done showing with
  | nil => simp [plainOnto]
  | cons c t ih =>
    simp only [List.all_cons, Bool.and_eq_true] at h
    have he : c ≠ '\x1B' := by intro hx; subst hx; exact absurd h.1 (by decide)
    have hc : ¬ (c = '\x18' ∨ c = '\x1A') := by rintro (rfl | rfl) <;> exact absurd h.1 (by decide)
    cases showing <;> simp [plainOnto, he, hc, h.1, ih _ _ h.2]

theorem plain_of_visible {t : Text} (h : t.all isVisible = true) : plain t = t := plainOnto_of_visible [] false h

end Polyglot.Text
