/-
  Polyglot.Proofs.Document.Checked — nothing that a reading does on its way can fail.

  `Document.read?` reads with a check before every step that asks for something: a byte must
  be in the text, a cut must go from one boundary of the text to another that is not before
  it, and a search must end within a number of turns. For every text the checks hold, and
  what comes out is the reading (`read_checked`).

  Between the checks are two searches, each from a boundary. There the search over bytes
  comes to the end that a reading by characters has (`literalEnd_eq_ok_iff`), though on its
  way it may have been inside a character, or past the end.
-/

import Mathlib.Data.List.Basic
import Polyglot.Document.Reading
import Polyglot.Proofs.Except
import Polyglot.Proofs.Literal.Search

namespace Polyglot.Document

open Literal (ClosesAt closing? closingWithin? closing?_eq_some_iff_closesAt)
open Text (IsBoundary byteLen slice?)

variable {d : Text} {start stop turns : Nat}

/-- Where the literal ends whose body starts at `start`. -/
def literalEnd (d : Text) (start : Nat) : Except ReadError Nat :=
  match closing? d start with
  | none => .error (.unterminated (start - 1))
  | some stop => .ok stop

/-- `literalEnd` with its search checked. -/
def literalEnd? (turns : Nat) (d : Text) (start : Nat) : ExceptT ReadError Option Nat := do
  match ← closingWithin? (Utf8.encode d) turns start with
  | none => throw (.unterminated (start - 1))
  | some stop => return stop

/-- `bodies?` with its searches checked. -/
def checkedBodies? (turns : Nat) (d : Text) : ExceptT ReadError Option (Text × Text) := do
  if opening.isPrefixOf d then
    let start₁ := byteLen opening
    let stop₁ ← literalEnd? turns d start₁
    if separator.isPrefixOf (← slice? d stop₁ (byteLen d)) then
      let start₂ := stop₁ + byteLen separator
      let stop₂ ← literalEnd? turns d start₂
      if Text.trimEnd (← slice? d stop₂ (byteLen d)) = closing then
        let first ← slice? d start₁ stop₁
        let second ← slice? d start₂ stop₂
        return (first, second)
      else throw (.missingClosing stop₂)
    else throw (.missingSeparator stop₁)
  else throw .missingOpening

/-- `read` with its searches and cuts checked; `none` if one of them fails. -/
def read? (turns : Nat) (d : Text) : ExceptT ReadError Option Programs := do
  let (first, second) ← checkedBodies? turns d
  liftExcept (Programs.ofBodies first second)

/-! ## The end of a literal -/

theorem literalEnd_eq_ok_iff (hs : IsBoundary d start) : literalEnd d start = .ok stop ↔ ClosesAt d start stop := by
  rw [← closing?_eq_some_iff_closesAt hs, literalEnd]
  cases closing? d start <;> simp

theorem literalEnd_eq_error_iff (hs : IsBoundary d start) {fault : ReadError} :
    literalEnd d start = .error fault ↔ fault = .unterminated (start - 1) ∧ ∀ stop, ¬ ClosesAt d start stop := by
  simp only [← closing?_eq_some_iff_closesAt hs, literalEnd]
  cases closing? d start with
  | none => simp [eq_comm]
  | some stop => simp

theorem literalEnd?_eq (h : byteLen d - start < turns) :
    literalEnd? turns d start =
      match closing? d start with
      | none => throw (.unterminated (start - 1))
      | some stop => pure stop := by
  have hloop : closingWithin? (Utf8.encode d) turns start = some (closing? d start) := by
    apply Literal.closingWithin?_eq_some
    rw [Utf8.length_encode]
    exact h
  rw [literalEnd?, hloop]
  rfl

theorem literalEnd?_eq_some (h : byteLen d - start < turns) : literalEnd? turns d start = some (literalEnd d start) := by
  rw [literalEnd?_eq h, literalEnd]
  cases closing? d start <;> rfl

/-! ## The reading -/

theorem checkedBodies?_eq (h : byteLen d < turns) : checkedBodies? turns d = bodies? d := by
  -- both make the same cuts in the same order, so it is enough to compare what comes behind each cut
  have hend (start : Nat) := @literalEnd?_eq d start turns (by omega)
  unfold checkedBodies? bodies?
  simp only [hend, lift_bind]
  by_cases hopening : opening.isPrefixOf d = true
  case neg =>
    rw [if_neg hopening, if_neg hopening]
    rfl
  rw [if_pos hopening, if_pos hopening]
  cases closing? d (byteLen opening) with
  | none => rfl
  | some stop₁ =>
  refine congrArg (slice? d stop₁ (byteLen d)).bind (funext fun afterFirst => ?_)
  by_cases hseparator : separator.isPrefixOf afterFirst = true
  case neg =>
    rw [if_neg hseparator, if_neg hseparator]
    rfl
  rw [if_pos hseparator, if_pos hseparator]
  cases closing? d (stop₁ + byteLen separator) with
  | none => rfl
  | some stop₂ =>
  refine congrArg (slice? d stop₂ (byteLen d)).bind (funext fun afterSecond => ?_)
  by_cases hclosing : Text.trimEnd afterSecond = closing
  case neg =>
    rw [if_neg hclosing, if_neg hclosing]
    rfl
  rw [if_pos hclosing, if_pos hclosing]
  refine congrArg (slice? d (byteLen opening) stop₁).bind (funext fun first => ?_)
  exact (Option.map_eq_bind ..).symm

theorem read?_eq_some (h : byteLen d < turns) : read? turns d = some (read d) := by
  have hbodies : bodies? d = some (bodies d) := (Option.some_get (isSome_bodies? d)).symm
  rw [read?, checkedBodies?_eq h, hbodies, read]
  cases bodies d with
  | error fault => rfl
  | ok pair => exact liftExcept_eq_some _

/-- From a boundary of a text, the search for the end of a literal comes to the end that a reading by
    characters has, which is a boundary again; if there is none, it says so. A search ends within one
    turn more than there are bytes left, and no step of a reading asks for what it cannot have. -/
theorem read_checked (d : Text) :
    (∀ start, IsBoundary d start →
      (∀ stop, literalEnd d start = .ok stop ↔ ClosesAt d start stop) ∧
      (∀ fault, literalEnd d start = .error fault ↔
        fault = .unterminated (start - 1) ∧ ∀ stop, ¬ ClosesAt d start stop) ∧
      ∀ stop, literalEnd d start = .ok stop → IsBoundary d stop) ∧
    (∀ start turns, byteLen d - start < turns → literalEnd? turns d start = some (literalEnd d start)) ∧
    ∀ turns, byteLen d < turns → read? turns d = some (read d) := by
  refine ⟨fun start hs => ⟨fun stop => literalEnd_eq_ok_iff hs, fun fault => literalEnd_eq_error_iff hs, ?_⟩,
    fun start turns => literalEnd?_eq_some, fun turns => read?_eq_some⟩
  intro stop hstop
  have hfound := (closing?_eq_some_iff_closesAt hs).2 ((literalEnd_eq_ok_iff hs).1 hstop)
  exact (Literal.isBoundary_of_closing? hs hfound).1

/-- In the first literal a backslash stands before a character of two bytes, in the second before the
    end of the text. -/
def strayDocument : Text := "eval([\"\\é\", \"\\".toList

theorem read_checked_stray :
    (IsBoundary strayDocument 7 ∧ ClosesAt strayDocument 7 10 ∧ IsBoundary strayDocument 10) ∧
      (IsBoundary strayDocument 14 ∧ ∀ stop, ¬ ClosesAt strayDocument 14 stop) ∧
      (byteLen strayDocument - 14 < 2 ∧ literalEnd? 2 strayDocument 14 = some (.error (.unterminated 13))) ∧
      byteLen strayDocument < 16 ∧ read? 16 strayDocument = some (.error (.unterminated 13)) := by
  have hfirst : IsBoundary strayDocument 7 := ⟨opening, _, rfl, by decide⟩
  have hsecond : IsBoundary strayDocument 14 := ⟨opening ++ "\\é".toList ++ separator, _, rfl, by decide⟩
  have hend : literalEnd strayDocument 7 = .ok 10 := by decide +kernel
  have hopen : literalEnd strayDocument 14 = .error (.unterminated 13) := by decide +kernel
  have hread : read strayDocument = .error (.unterminated 13) := by decide +kernel
  have htwo : byteLen strayDocument - 14 < 2 := by decide
  have hturns : byteLen strayDocument < 16 := by decide
  obtain ⟨hends, hsearch, hreading⟩ := read_checked strayDocument
  obtain ⟨hok, -, hboundary⟩ := hends 7 hfirst
  obtain ⟨-, herror, -⟩ := hends 14 hsecond
  refine ⟨⟨hfirst, (hok 10).1 hend, hboundary 10 hend⟩, ⟨hsecond, ((herror _).1 hopen).2⟩, ⟨htwo, ?_⟩, hturns, ?_⟩
  · rw [hsearch 14 2 htwo, hopen]
  · rw [hreading 16 hturns, hread]

end Polyglot.Document
