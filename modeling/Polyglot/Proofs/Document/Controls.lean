/-
  Polyglot.Proofs.Document.Controls — what becomes of line feeds, carriage returns and
  NULs on the way into a document.

  A character that an escaping neither escapes nor writes stands in what is written as
  often and in the same order as in the text (`filter_escape`); one that it escapes and
  does not write is gone (`Literal.not_mem_escape`). So a document has no line feed, and
  of the others it has exactly those of its programs (`controls_encode`).
-/

import Polyglot.Document.Basic
import Polyglot.Proofs.Literal.Words

namespace Polyglot

namespace Escaping

variable {e : Escaping}

theorem filter_escape {kept : Char → Bool} (h : ∀ c, kept c = true → e.letterOf c = none ∧ e.charOf c = none)
    (t : Text) : (e.escape t).filter kept = t.filter kept := by
  have hdropped (c : Char) (hc : e.letterOf c ≠ none ∨ e.charOf c ≠ none) : kept c = false := by
    rw [← Bool.not_eq_true]
    intro hk
    rcases hc with hc | hc
    · exact hc (h c hk).1
    · exact hc (h c hk).2
  have hunit (c : Char) : (e.unit c).filter kept = [c].filter kept := by
    rw [unit]
    cases hc : e.letterOf c with
    | none => rfl
    | some l =>
      -- neither the character nor what is written for it is kept
      have hc' := hdropped c (Or.inl (by simp [hc]))
      have hb := hdropped '\\' (Or.inl e.letterOf_backslash)
      have hl := hdropped l (Or.inr (by simp [(e.charOf_eq_some l c).2 hc]))
      simp [hc', hb, hl]
  induction t with
  | nil => rfl
  | cons c t ih => rw [escape_cons, List.filter_append, hunit, ih, ← List.filter_append, List.singleton_append]

end Escaping

/-- The carriage returns and NULs of a text, in order. -/
def Text.controls (t : Text) : Text := t.filter fun c => c = '\r' || c = '\x00'

theorem Text.controls_append (s t : Text) : controls (s ++ t) = controls s ++ controls t := List.filter_append ..

/-- An escaping that knows nothing of carriage returns and NULs leaves them as they are. -/
theorem controls_escape {e : Escaping} (hr : e.letterOf '\r' = none ∧ e.charOf '\r' = none)
    (hn : e.letterOf '\x00' = none ∧ e.charOf '\x00' = none) (t : Text) :
    Text.controls (e.escape t) = Text.controls t := by
  apply Escaping.filter_escape
  intro c hc
  rcases Bool.or_eq_true_iff.1 hc with hc | hc
  · exact of_decide_eq_true hc ▸ hr
  · exact of_decide_eq_true hc ▸ hn

namespace Document

theorem controls_execStatement (python : Text) : Text.controls (execStatement python) = Text.controls python := by
  have h₁ : Text.controls execOpening = [] := by decide
  have h₂ : Text.controls execClosing = [] := by decide
  have hescape := controls_escape (e := .python) ⟨rfl, rfl⟩ ⟨rfl, rfl⟩ python
  rw [execStatement, Text.controls_append, Text.controls_append, h₁, h₂, hescape, List.nil_append, List.append_nil]

theorem controls_encode (p : Programs) :
    Text.controls (encode p) = Text.controls p.javascript ++ Text.controls p.python := by
  have h₁ : Text.controls opening = [] := by decide
  have h₂ : Text.controls separator = [] := by decide
  have h₃ : Text.controls closing = [] := by decide
  have hescape := controls_escape (e := .host) ⟨rfl, rfl⟩ ⟨rfl, rfl⟩
  simp only [encode, Text.controls_append, h₁, h₂, h₃, hescape, controls_execStatement, List.nil_append,
    List.append_nil]

theorem lineFeed_not_mem_encode (p : Programs) : '\n' ∉ encode p := by
  have hescape (t : Text) : '\n' ∉ Escaping.host.escape t :=
    Literal.not_mem_escape (by decide) (by decide) (by decide) t
  have h₁ : '\n' ∉ opening := by decide
  have h₂ : '\n' ∉ separator := by decide
  have h₃ : '\n' ∉ closing := by decide
  simp only [encode, List.mem_append, h₁, h₂, h₃, hescape, or_self, not_false_eq_true]

end Document

end Polyglot
