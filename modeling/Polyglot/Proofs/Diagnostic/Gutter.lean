/-
  Polyglot.Proofs.Diagnostic.Gutter — the bars of a snippet.

  The bars of the lines and of their carets stand in one column, behind the widest line
  number. The row without text above them has its bar where it stands behind a number of one
  digit, so the bars are one straight line exactly if the last line shown is the ninth or
  above it (`straight_gutter_iff`); from the tenth on they are not (`gutter_bends_at_tenth`).
-/

import Polyglot.Proofs.Diagnostic.Carets

namespace Polyglot

open Text (IsLine byteLen)

/-- The column of the first bar of a row. -/
def Text.barColumn (row : Text) : Nat := row.idxOf '|'

theorem Text.barColumn_append {u : Text} (h : '|' ∉ u) (v : Text) : barColumn (u ++ " | ".toList ++ v) = u.length + 1 := by
  have hbar : (" | ".toList ++ v).idxOf '|' = 1 := by
    rw [List.idxOf_append, if_pos (by decide)]
    decide
  rw [barColumn, List.append_assoc, List.idxOf_append, if_neg h, hbar, Nat.add_comm]

theorem Text.bar_not_mem_decimal (n : Nat) : '|' ∉ decimal n :=
  fun h => absurd (isDigit_of_mem_decimal h) (by decide)

namespace MarkedLine

variable {m : MarkedLine} {t message : Text} {r : TextRange} {k : Nat}

theorem barColumn_of_mem_rows (h : m.Shows t r message k) {row : Text} (hrow : row ∈ m.rows) :
    row.barColumn = (Text.decimal (Text.feedsBefore t r.last + 1)).length + 1 := by
  obtain ⟨blanks, hnumber⟩ := h.number_eq
  have hbar : '|' ∉ m.number := by
    rw [hnumber, List.mem_append, List.mem_replicate]
    rintro (⟨-, hblank⟩ | hdecimal)
    · exact absurd hblank (by decide)
    · exact Text.bar_not_mem_decimal _ hdecimal
  have hblanks : '|' ∉ List.replicate m.number.length ' ' := by
    rw [List.mem_replicate]
    exact fun hx => absurd hx.2 (by decide)
  rw [← h.number_length]
  simp only [rows, List.mem_cons, List.not_mem_nil, or_false] at hrow
  rcases hrow with rfl | rfl
  · exact Text.barColumn_append hbar m.shown
  · rw [underline, List.append_assoc, Text.barColumn_append hblanks, List.length_replicate]

theorem feed_not_mem_of_mem_rows (h : m.Shows t r message k) (hmessage : '\n' ∉ message) {row : Text}
    (hrow : row ∈ m.rows) : '\n' ∉ row := by
  have hlabel : '\n' ∉ m.label := by
    rw [h.label_eq]
    split
    · exact List.not_mem_cons_of_ne_of_not_mem (by decide) hmessage
    · exact List.not_mem_nil
  simp only [rows, List.mem_cons, List.not_mem_nil, or_false] at hrow
  rcases hrow with rfl | rfl
  · exact fun hmem => h.source_steady _ hmem (by decide)
  · simp [underline, pointer, List.mem_replicate, hlabel]

end MarkedLine

namespace Snippet

variable {t message : Text} {r : TextRange}

theorem exists_of_mem_right {α β : Type} {R : α → β → Prop} {as : List α} {bs : List β} {b : β}
    (h : List.Forall₂ R as bs) (hb : b ∈ bs) : ∃ a ∈ as, R a b := by
  induction h with
  | nil => cases hb
  | cons hab _ ih =>
    rcases List.mem_cons.1 hb with rfl | hb
    · exact ⟨_, List.mem_cons_self, hab⟩
    · obtain ⟨a, ha, hab⟩ := ih hb
      exact ⟨a, List.mem_cons_of_mem _ ha, hab⟩

theorem shows_of_mem_markedLines {m : MarkedLine} (hm : m ∈ (of t r).markedLines message) :
    ∃ k, m.Shows t (fit t r) message k := by
  obtain ⟨k, -, hk⟩ := exists_of_mem_right (forall₂_markedLines t r message) hm
  exact ⟨k, hk⟩

theorem length_markedLines (t : Text) (r : TextRange) (message : Text) :
    ((of t r).markedLines message).length =
      Text.feedsBefore t (fit t r).last + 1 - Text.feedsBefore t (fit t r).start := by
  rw [← (forall₂_markedLines t r message).length_eq, linesUnder, List.length_range']

end Snippet

theorem MarkedLine.length_flatMap_rows (marked : List MarkedLine) : (marked.flatMap rows).length = 2 * marked.length := by
  induction marked with
  | nil => rfl
  | cons m marked ih =>
    rw [List.flatMap_cons, List.length_append, ih, List.length_cons, Nat.mul_succ, Nat.add_comm]
    rfl

theorem Text.length_decimal_eq_one_iff (n : Nat) : (decimal n).length = 1 ↔ n < 10 := by
  have hpos : 0 < (decimal n).length := Nat.length_toDigits_pos
  have hle : (decimal n).length ≤ 1 ↔ n < 10 := Nat.length_toDigits_le_iff (by decide) (by decide)
  omega

namespace Diagnostic

variable {sources : Sources} {d : Diagnostic} {span : Span} {t : Text}

/-- Below the row without text, a diagnostic about a range of a text has two rows for each line, with
    their bars in one column behind the number of the last. The bar of the row without text is in
    that column exactly if this number has one digit. -/
theorem straight_gutter_iff (hplace : d.place = .span span) (htext : sources.text? span.file = some t)
    (hmessage : '\n' ∉ d.message) :
    ∃ r line column rows, span.range.Fits t r ∧
      d.render sources = (d.headline ::
        (" --> ".toList ++ sources.nameOf span.file ++ ':' :: Text.decimal line ++ ':' :: Text.decimal column) ::
        "  |".toList :: rows ++ d.noteLines).flatMap (· ++ ['\n']) ∧
      rows.length = 2 * (Text.feedsBefore t r.last + 1 - Text.feedsBefore t r.start) ∧
      (∀ row ∈ rows, '\n' ∉ row ∧ row.barColumn = (Text.decimal (Text.feedsBefore t r.last + 1)).length + 1) ∧
      ((∀ row ∈ rows, row.barColumn = Text.barColumn "  |".toList) ↔ Text.feedsBefore t r.last + 1 < 10) := by
  have hrows : ∀ row ∈ ((Snippet.of t span.range).markedLines d.message).flatMap MarkedLine.rows, '\n' ∉ row ∧
      row.barColumn = (Text.decimal (Text.feedsBefore t (Snippet.fit t span.range).last + 1)).length + 1 := by
    intro row hrow
    obtain ⟨m, hm, hrow⟩ := List.mem_flatMap.1 hrow
    obtain ⟨k, hk⟩ := Snippet.shows_of_mem_markedLines hm
    exact ⟨MarkedLine.feed_not_mem_of_mem_rows hk hmessage hrow, MarkedLine.barColumn_of_mem_rows hk hrow⟩
  have hlength := MarkedLine.length_flatMap_rows ((Snippet.of t span.range).markedLines d.message)
  rw [Snippet.length_markedLines] at hlength
  refine ⟨_, _, _, _, TextRange.fits_iff.2 rfl, render_eq_rows hplace htext, hlength, hrows, ?_⟩
  have hblank : Text.barColumn "  |".toList = 1 + 1 := rfl
  rw [hblank, ← Text.length_decimal_eq_one_iff]
  constructor
  · intro h
    have hle := Text.feedsBefore_mono t (Snippet.fit t span.range).start_le_last
    obtain ⟨row, hrow⟩ := List.exists_mem_of_length_pos (Nat.lt_of_lt_of_eq (by omega) hlength.symm)
    have hbar := (hrows row hrow).2
    rw [h row hrow] at hbar
    exact (Nat.succ.inj hbar).symm
  · intro h row hrow
    rw [(hrows row hrow).2, h]

/-- A line with so many empty lines before it. -/
def belowEmpty (n : Nat) : Text := List.replicate n '\n' ++ ['x']

def belowEmptySources (n : Nat) : Sources := .ofList [("m.py".toList, some (belowEmpty n))]

def belowEmptySpan (n : Nat) : Span := ⟨0, ⟨n, n + 1⟩⟩

def belowEmptyWarning (n : Nat) : Diagnostic := ⟨"W1".toList, .warning, "odd".toList, .span (belowEmptySpan n), []⟩

theorem straight_gutter_ninth :
    (belowEmptyWarning 8).place = .span (belowEmptySpan 8) ∧
      (belowEmptySources 8).text? (belowEmptySpan 8).file = some (belowEmpty 8) ∧
      '\n' ∉ (belowEmptyWarning 8).message ∧
      ∃ place rows, (belowEmptyWarning 8).render (belowEmptySources 8) =
          ("warning[W1]: odd".toList :: place :: "  |".toList :: rows).flatMap (· ++ ['\n']) ∧
        rows.length = 2 ∧ ∀ row ∈ rows, Text.barColumn row = Text.barColumn "  |".toList := by
  have hplace : (belowEmptyWarning 8).place = .span (belowEmptySpan 8) := rfl
  have htext : (belowEmptySources 8).text? (belowEmptySpan 8).file = some (belowEmpty 8) := rfl
  have hmessage : '\n' ∉ (belowEmptyWarning 8).message := by decide
  refine ⟨hplace, htext, hmessage, ?_⟩
  obtain ⟨r, line, column, rows, hfits, hrender, hlength, -, hstraight⟩ := straight_gutter_iff hplace htext hmessage
  obtain rfl : r = ⟨8, 9⟩ := TextRange.fits_iff.1 hfits
  have hhead : (belowEmptyWarning 8).headline = "warning[W1]: odd".toList := rfl
  have hnotes : (belowEmptyWarning 8).noteLines = [] := rfl
  rw [hhead, hnotes, List.append_nil] at hrender
  exact ⟨_, rows, hrender, hlength, hstraight.2 (by decide)⟩

theorem gutter_bends_at_tenth :
    (belowEmptyWarning 9).place = .span (belowEmptySpan 9) ∧
      (belowEmptySources 9).text? (belowEmptySpan 9).file = some (belowEmpty 9) ∧
      '\n' ∉ (belowEmptyWarning 9).message ∧
      (belowEmptyWarning 9).render (belowEmptySources 9) =
        ["warning[W1]: odd", " --> m.py:10:1", "  |", "10 | x", "   | ^ odd"].flatMap (·.toList ++ ['\n']) ∧
      ∀ row ∈ ["10 | x", "   | ^ odd"], Text.barColumn row.toList ≠ Text.barColumn "  |".toList := by
  refine ⟨rfl, rfl, by decide, ?_, by decide⟩
  decide +kernel

end Diagnostic

end Polyglot
