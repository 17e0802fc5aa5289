/-
  Polyglot.Proofs.Document.RoundTrip — the document of two programs is read as those
  programs.

  `read_encode_append`: blanks after the document change nothing, and any other text
  after it is refused, at the end of the second literal.
-/

import Mathlib.Logic.Function.Basic
import Polyglot.Proofs.Document.Grammar

namespace Polyglot.Document

open Text (byteLen isBlank trimEnd)

theorem ofBodies_escape (p : Programs) :
    Programs.ofBodies (Escaping.host.escape p.javascript) (Escaping.host.escape (execStatement p.python)) = .ok p :=
  Programs.ofBodies_eq_ok_iff.2
    ⟨Escaping.unescape_escape _ _, _, Escaping.unescape_escape _ _, Escaping.unescape_escape _ _⟩

theorem read_encode_append_of_blank (p : Programs) {s : Text} (h : s.all isBlank = true) :
    read (encode p ++ s) = .ok p :=
  read_eq_ok_iff.2 ⟨_, _, bodies_eq_iff.2 (.complete (Literal.body_escape _) (Literal.body_escape _) h),
    ofBodies_escape p⟩

theorem read_encode (p : Programs) : read (encode p) = .ok p := by
  have := read_encode_append_of_blank p (s := []) rfl
  rwa [List.append_nil] at this

/-- Reading tells two pairs of programs apart by their documents. -/
theorem encode_inj {p q : Programs} : encode p = encode q ↔ p = q := by
  constructor
  · intro h
    have hp := read_encode p
    rw [h, read_encode q] at hp
    exact (Except.ok.inj hp).symm
  · intro h
    rw [h]

theorem trimEnd_closing_append_ne {s : Text} (h : ¬ s.all isBlank = true) : trimEnd (closing ++ s) ≠ closing := by
  intro ht
  obtain ⟨w, hw, hb⟩ := eq_closing_append ht
  exact h (List.append_cancel_left hw ▸ hb)

theorem read_encode_append_of_not_blank (p : Programs) {s : Text} (h : ¬ s.all isBlank = true) :
    read (encode p ++ s) = .error (.missingClosing (byteLen (encode p) - byteLen closing)) := by
  have ht := trimEnd_closing_append_ne h
  rw [closing_append] at ht
  have hl := Layout.missingClosing (Literal.body_escape p.javascript) (Literal.body_escape (execStatement p.python)) ht
  rw [← closing_append, ← List.append_assoc] at hl
  have hpos : byteLen (encode p) - byteLen closing =
      byteLen (opening ++ Escaping.host.escape p.javascript ++ separator ++
        Escaping.host.escape (execStatement p.python)) := by
    rw [encode, Text.byteLen_append _ closing, Nat.add_sub_cancel]
  have hb : bodies (encode p ++ s) = .error (.missingClosing (byteLen (encode p) - byteLen closing)) := by
    rw [hpos]
    exact bodies_eq_iff.2 hl
  rw [read, hb]
  rfl

/-- With blanks after it, the document of two programs is read as those programs; with anything
    else after it, it is refused where its closing part starts. So no two pairs of programs have
    the same document. -/
theorem read_encode_append :
    (∀ (p : Programs) (s : Text), read (encode p ++ s) =
      if s.all isBlank then .ok p else .error (.missingClosing (byteLen (encode p) - byteLen closing))) ∧
      Function.Injective encode := by
  constructor
  · intro p s
    split
    · exact read_encode_append_of_blank p ‹_›
    · exact read_encode_append_of_not_blank p ‹_›
  · intro p q h
    exact encode_inj.1 h

end Polyglot.Document
