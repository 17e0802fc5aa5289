/-
  Polyglot.Text.Blank — the characters with the Unicode property White_Space, and
  texts without those at their end.

  `eq_trimEnd_append`: trimming takes off blanks only. `trimEnd_append_of_blank`: it
  takes off all of them.
-/

import Polyglot.Text.Basic

namespace Polyglot.Text

/-- White_Space, as the code points of its ranges. -/
def isBlank (c : Char) : Bool :=
  let v := c.toNat
  (0x0009 ≤ v && v ≤ 0x000D) || v == 0x0020 || v == 0x0085 || v == 0x00A0 || v == 0x1680 ||
    (0x2000 ≤ v && v ≤ 0x200A) || v == 0x2028 || v == 0x2029 || v == 0x202F || v == 0x205F || v == 0x3000

/-- The text without the blanks at its end. -/
def trimEnd (t : Text) : Text := (t.reverse.dropWhile isBlank).reverse

/-- A text is its trimmed form and the blanks after it. -/
theorem eq_trimEnd_append (t : Text) : ∃ w, t = trimEnd t ++ w ∧ w.all isBlank = true := by
  refine ⟨(t.reverse.takeWhile isBlank).reverse, ?_, ?_⟩
  · rw [trimEnd, ← List.reverse_append, List.takeWhile_append_dropWhile, List.reverse_reverse]
  · rw [List.all_reverse]
    exact List.all_takeWhile

/-- Blanks at the end are taken off, and so are those before them. -/
theorem trimEnd_append_of_blank (t : Text) {w : Text} (h : w.all isBlank = true) : trimEnd (t ++ w) = trimEnd t := by
  rw [trimEnd, trimEnd, List.reverse_append, List.dropWhile_append_of_pos]
  simpa using h

/-- A text that ends in no blank is trimmed already. -/
theorem trimEnd_append_singleton (t : Text) {c : Char} (h : isBlank c = false) : trimEnd (t ++ [c]) = t ++ [c] := by
  simp [trimEnd, h]

end Polyglot.Text
