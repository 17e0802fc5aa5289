/-
  Polyglot.Proofs.Document.Canonical — the document of two programs, among all texts that
  are read as them.

  A text may be read although nothing writes it: a line feed may stand in a literal as it
  is, and a quote in the Python program as it is. A text with neither is, blanks at its
  end apart, the document of its programs (`Parts.encode_eq_iff`), and every other text
  is shorter than that (`Parts.canonical_or_trimEnd_lt`). So the document is the one
  longest text for its programs (`encode_longest`).
-/

import Polyglot.Proofs.Document.RoundTrip
import Polyglot.Proofs.Literal.Canonical

namespace Polyglot.Document

open Literal (unescaped)
open Text (byteLen trimEnd)

variable {d a b c w : Text} {p : Programs}

/-! ## Without the blanks -/

theorem trimEnd_append_closing (t : Text) : trimEnd (t ++ closing) = t ++ closing := by
  have hlast : closing = "\"][".toList ++ selector ++ "]".toList ++ [')'] := rfl
  rw [hlast, ← List.append_assoc]
  exact Text.trimEnd_append_singleton _ (by decide)

theorem trimEnd_encode (p : Programs) : trimEnd (encode p) = encode p := trimEnd_append_closing _

theorem Parts.trimEnd_eq (h : Parts d p a b c w) : trimEnd d = opening ++ a ++ separator ++ b ++ closing := by
  rw [h.eq_append, Text.trimEnd_append_of_blank _ h.blank]
  exact trimEnd_append_closing _

/-! ## The words that are written -/

/-- The words of a document are those that the escapings write. -/
structure Canonical (p : Programs) (a b c : Text) : Prop where
  javascript : a = Escaping.host.escape p.javascript
  statement : b = Escaping.host.escape (execOpening ++ c ++ execClosing)
  python : c = Escaping.python.escape p.python

theorem Canonical.eq_encode (h : Canonical p a b c) : opening ++ a ++ separator ++ b ++ closing = encode p := by
  rw [h.javascript, h.statement, h.python]
  rfl

/-- Neither a line feed in a literal nor a quote in the Python program stands as it is. -/
theorem Parts.canonical_iff (h : Parts d p a b c w) :
    Canonical p a b c ↔ '\n' ∉ trimEnd d ∧ '\'' ∉ unescaped c ∧ '"' ∉ unescaped c := by
  have hfeed : '\n' ∉ trimEnd d ↔ '\n' ∉ a ∧ '\n' ∉ b := by
    have h₁ : '\n' ∉ opening := by decide
    have h₂ : '\n' ∉ separator := by decide
    have h₃ : '\n' ∉ closing := by decide
    rw [h.trimEnd_eq]
    simp only [List.mem_append, h₁, h₂, h₃, or_false, false_or, not_or]
  rw [hfeed, ← h.javascript.eq_escape_iff, ← h.statement.eq_escape_iff, ← h.python.eq_escape_iff]
  constructor
  · intro hw
    exact ⟨⟨hw.javascript, hw.statement⟩, hw.python⟩
  · intro hw
    obtain ⟨⟨hj, hs⟩, hp⟩ := hw
    exact ⟨hj, hs, hp⟩

/-- No word is longer in the document than the written one, and one that differs from it is shorter;
    the word of the Python program by what the host makes of it. -/
theorem Parts.canonical_or_lt (h : Parts d p a b c w) :
    Canonical p a b c ∨ byteLen a + byteLen b <
      byteLen (Escaping.host.escape p.javascript) + byteLen (Escaping.host.escape (execStatement p.python)) := by
  have hlen (t : Text) : byteLen (Escaping.host.escape (execOpening ++ t ++ execClosing)) =
      byteLen (Escaping.host.escape execOpening) + byteLen (Escaping.host.escape t) +
        byteLen (Escaping.host.escape execClosing) := by
    rw [Escaping.escape_append, Escaping.escape_append, Text.byteLen_append, Text.byteLen_append]
  have hstatement : b = Escaping.host.escape (execOpening ++ c ++ execClosing) ∨
      byteLen b < byteLen (Escaping.host.escape (execOpening ++ c ++ execClosing)) :=
    h.statement.eq_escape_or_lt
  have hj := Nat.le_iff_lt_or_eq.2 (h.javascript.eq_escape_or_lt.symm.imp_right (congrArg byteLen))
  have hs := Nat.le_iff_lt_or_eq.2 (hstatement.symm.imp_right (congrArg byteLen))
  have hp := Nat.le_iff_lt_or_eq.2 (h.python.eq_escape_or_lt.symm.imp_right
    (congrArg fun t => byteLen (Escaping.host.escape t)))
  unfold execStatement
  rw [hlen] at hs ⊢
  rcases h.javascript.eq_escape_or_lt with hja | hja
  · rcases hstatement with hsa | hsa
    · rcases h.python.eq_escape_or_lt with hpa | hpa
      · exact Or.inl ⟨hja, hsa, hpa⟩
      · right
        omega
    · right
      rw [hlen] at hsa
      omega
  · right
    omega

theorem Parts.canonical_or_trimEnd_lt (h : Parts d p a b c w) :
    Canonical p a b c ∨ byteLen (trimEnd d) < byteLen (encode p) := by
  rcases h.canonical_or_lt with hw | hlt
  · exact Or.inl hw
  · right
    rw [h.trimEnd_eq, encode]
    simp only [Text.byteLen_append]
    omega

theorem Parts.encode_eq_iff (h : Parts d p a b c w) : encode p = trimEnd d ↔ Canonical p a b c := by
  constructor
  · intro heq
    rcases h.canonical_or_trimEnd_lt with hw | hlt
    · exact hw
    · rw [heq] at hlt
      exact absurd hlt (Nat.lt_irrefl _)
  · intro hw
    rw [h.trimEnd_eq]
    exact hw.eq_encode.symm

/-- A text that is read is, blanks at its end apart, the document of its programs if it has no line
    feed and no quote of the Python program in it that stands for itself, and is shorter than that
    document otherwise. So the document is the one longest text for its programs. -/
theorem encode_longest (h : read d = .ok p) :
    (∃ a b c, bodies d = .ok (a, b) ∧
        Escaping.host.unescape b = .ok ("exec('''".toList ++ c ++ "''')".toList) ∧
        (encode p = trimEnd d ↔ '\n' ∉ trimEnd d ∧ '\'' ∉ unescaped c ∧ '"' ∉ unescaped c)) ∧
      (encode p ≠ trimEnd d → byteLen (trimEnd d) < byteLen (encode p)) ∧
      read (encode p) = .ok p ∧ trimEnd (encode p) = encode p := by
  obtain ⟨a, b, c, w, hparts⟩ := exists_parts h
  refine ⟨⟨a, b, c, ?_, ?_, ?_⟩, ?_, read_encode p, trimEnd_encode p⟩
  · exact bodies_eq_iff.2 hparts.layout
  · exact (Literal.hostWord_iff.1 hparts.statement).2
  · rw [hparts.encode_eq_iff]
    exact hparts.canonical_iff
  · intro hne
    rcases hparts.canonical_or_trimEnd_lt with hw | hlt
    · exact absurd (hparts.encode_eq_iff.2 hw) hne
    · exact hlt

/-- A text with a line feed and with quotes that stand for themselves, and a line feed after it. -/
def looseDocument : Text :=
  "eval([\"a\nb\", \"exec('''it's''')\"][(-1 % 2 + 1) >> 1])\n".toList

theorem encode_longest_loose :
    read looseDocument = .ok ⟨"it's".toList, "a\nb".toList⟩ ∧
      byteLen (trimEnd looseDocument) < byteLen (encode ⟨"it's".toList, "a\nb".toList⟩) := by
  have h : read looseDocument = .ok ⟨"it's".toList, "a\nb".toList⟩ := by decide +kernel
  exact ⟨h, (encode_longest h).2.1 (by decide +kernel)⟩

end Polyglot.Document
