/-
  Polyglot.Proofs.Literal.Outcomes — the three outcomes of reading a body, and the one
  body that is written for a text.

  Each body is a word, goes wrong at its first bad letter, or ends in a lone backslash,
  and reading it says which. What is written for a text is the one body that is read as
  the text and leaves nothing to stand for itself that could be escaped. The texts on both
  sides are arbitrary, and so is what stood in the buffer before (`exact_escapings`).
-/

import Polyglot.Proofs.Literal.Canonical
import Polyglot.Proofs.Literal.Refusal

namespace Polyglot.Literal

/-- An escaping reads the words in its letters and no other body, refuses a body where it stops
    being a word, and writes for each text the one body in which nothing that is escaped stands for
    itself. -/
structure Exact (letters : List (Char × Char)) (e : Escaping) : Prop where
  ok_iff : ∀ w t, e.unescape w = .ok t ↔ Word (fun c => c ≠ '\\') letters w t
  invalidEscape_iff : ∀ w offset l, e.unescape w = .error (.invalidEscape offset l) ↔
    ∃ u t v, w = u ++ '\\' :: l :: v ∧ Word (fun c => c ≠ '\\') letters u t ∧ Text.byteLen u = offset ∧
      ∀ c, (l, c) ∉ letters
  trailingBackslash_iff : ∀ w, e.unescape w = .error .trailingBackslash ↔
    ∃ u t, w = u ++ ['\\'] ∧ Word (fun c => c ≠ '\\') letters u t
  written : ∀ out t, ∃ w, e.escapeOnto out t = out ++ w ∧
    ∀ w', w' = w ↔ e.unescape w' = .ok t ∧ ∀ c ∈ unescaped w', e.letterOf c = none

variable {letters : List (Char × Char)} {e : Escaping}

/-- The body that is written is told from the others for its text by its raw characters. -/
theorem eq_escape_iff (he : Lists letters e) {w t : Text} :
    w = e.escape t ↔ e.unescape w = .ok t ∧ ∀ c ∈ unescaped w, e.letterOf c = none := by
  constructor
  · intro h
    have hread : e.unescape w = .ok t := by
      rw [h]
      exact e.unescape_escape t
    exact ⟨hread, (((unescape_eq_ok_iff he).1 hread).eq_escape_iff he).1 h⟩
  · intro h
    exact (((unescape_eq_ok_iff he).1 h.1).eq_escape_iff he).2 h.2

theorem exact_of_lists (he : Lists letters e) : Exact letters e where
  ok_iff _ _ := unescape_eq_ok_iff he
  invalidEscape_iff _ _ _ := unescape_eq_invalidEscape_iff he
  trailingBackslash_iff _ := unescape_eq_trailingBackslash_iff he
  written out t := ⟨e.escape t, e.escapeOnto_eq out t, fun _ => eq_escape_iff he⟩

/-- Both escapings are exact, each with its three letters. -/
theorem exact_escapings : Exact hostLetters .host ∧ Exact pythonLetters .python :=
  ⟨exact_of_lists lists_host, exact_of_lists lists_python⟩

end Polyglot.Literal
