/-
  Polyglot.Proofs.Diagnostic.Carets — the carets of a snippet stand below what its range
  covers.

  `MarkedLine` is a line as it is to be shown: its number and what there is to see of it, and
  below that its carets. `MarkedLine.Marks` says where the carets belong, character by
  character: below every column of a character that the range covers and below no other; if it
  covers none of the line, one caret stands where the range starts or, on a later line, where
  the line does. A rendering shows the lines from that of the start of the range to that of its
  last byte, each marked so (`render_carets`).

  Bytes and columns are compared by where a character stands to a front part of its line: it is
  in it, and then both end in it, or it is not, and then both start behind it
  (`Text.in_or_behind`).
-/

import Polyglot.Proofs.Diagnostic.Rows

namespace Polyglot

open Text (IsLine byteLen)

/-! ## What there is to see of a line -/

namespace Text

variable {u v x y line : Text} {c : Char}

/-- A character on a screen: a tab takes two columns, and a sign that would disturb them has one to
    see instead. -/
def displayChar : Char → Text
  | '\t' => "  ".toList
  | '\r' => "␍".toList
  | '\x00' => "␀".toList
  | c => [c]

def display (line : Text) : Text := line.flatMap displayChar

theorem display_append (u v : Text) : display (u ++ v) = display u ++ display v := List.flatMap_append

theorem displayChar_eq_shown (c : Char) : displayChar c = Row.shown c := by
  unfold displayChar Row.shown
  split
  · rfl
  · rfl
  · rfl
  · rename_i htab hreturn hnul
    rw [if_neg htab, if_neg hreturn, if_neg hnul]

theorem length_displayChar (c : Char) : (displayChar c).length = Snippet.width c := by
  unfold displayChar Snippet.width
  split
  · rfl
  · rfl
  · rfl
  · rename_i htab _ _
    rw [if_neg htab]
    rfl

theorem length_display (line : Text) : (display line).length = (line.map Snippet.width).sum := by
  rw [display, List.length_flatMap]
  simp only [length_displayChar]

theorem length_displayChar_pos (c : Char) : 0 < (displayChar c).length := by
  rw [length_displayChar, Snippet.width]
  split
  · decide
  · decide

/-- The signs that would not stay in their place on a screen. -/
def unsteady : List Char := ['\t', '\r', '\x00', '\n']

theorem not_mem_unsteady_of_mem_displayChar {d : Char} (hc : c ≠ '\n') (hd : d ∈ displayChar c) : d ∉ unsteady := by
  unfold displayChar at hd
  split at hd
  · obtain rfl : d = ' ' := by simpa using hd
    decide
  · obtain rfl : d = '␍' := by simpa using hd
    decide
  · obtain rfl : d = '␀' := by simpa using hd
    decide
  · rename_i htab hreturn hnul
    obtain rfl := List.mem_singleton.1 hd
    simp only [unsteady, List.mem_cons, List.not_mem_nil, or_false, not_or]
    exact ⟨htab, hreturn, hnul, hc⟩

theorem not_mem_unsteady_of_mem_display (h : '\n' ∉ line) : ∀ d ∈ display line, d ∉ unsteady := by
  intro d hd
  obtain ⟨c, hc, hd⟩ := List.mem_flatMap.1 hd
  exact not_mem_unsteady_of_mem_displayChar (fun heq => h (heq ▸ hc)) hd

/-- A character of a line is in a front part of it or behind it, in bytes as in columns. -/
theorem in_or_behind (h : u ++ c :: v = x ++ y) :
    (byteLen x ≤ byteLen u ∧ (display x).length ≤ (display u).length) ∨
      (byteLen u < byteLen x ∧ (display (u ++ [c])).length ≤ (display x).length) := by
  rcases List.append_eq_append_iff.1 h with ⟨z, rfl, hz⟩ | ⟨z, rfl, -⟩
  · cases z with
    | nil =>
      left
      simp
    | cons d z =>
      obtain ⟨rfl, -⟩ := List.cons.inj hz
      right
      have hpos := c.utf8Size_pos
      constructor
      · rw [byteLen_append, byteLen_cons]
        omega
      · rw [show u ++ c :: z = u ++ [c] ++ z by simp, display_append (u ++ [c]), List.length_append]
        exact Nat.le_add_right _ _
  · left
    rw [byteLen_append, display_append, List.length_append]
    exact ⟨Nat.le_add_right _ _, Nat.le_add_right _ _⟩

end Text

open Text (display)

/-! ## Marked lines -/

/-- A position is in a range. -/
def TextRange.Contains (r : TextRange) (n : Nat) : Prop := r.start ≤ n ∧ n < r.stop

/-- The range covers a character of a line that starts at `start`. -/
def TextRange.Covers (r : TextRange) (start : Nat) (line : Text) : Prop :=
  ∃ u c v, line = u ++ c :: v ∧ r.Contains (start + byteLen u)

/-- A line as it is shown: behind a bar, with its number before it, and in the row below, behind a
    bar under that one, carets from a column on, with a label behind them. -/
structure MarkedLine where
  number : Text
  shown : Text
  column : Nat
  carets : Nat
  label : Text

namespace MarkedLine

def source (m : MarkedLine) : Text := m.number ++ " | ".toList ++ m.shown

/-- What stands below `shown`, up to the last caret. -/
def pointer (m : MarkedLine) : Text := List.replicate m.column ' ' ++ List.replicate m.carets '^'

def underline (m : MarkedLine) : Text :=
  List.replicate m.number.length ' ' ++ " | ".toList ++ m.pointer ++ m.label

def rows (m : MarkedLine) : List Text := [m.source, m.underline]

/-- A caret stands below the column. -/
def CaretBelow (m : MarkedLine) (column : Nat) : Prop := m.pointer[column]? = some '^'

theorem caretBelow_iff {m : MarkedLine} {column : Nat} :
    m.CaretBelow column ↔ m.column ≤ column ∧ column < m.column + m.carets := by
  unfold CaretBelow pointer
  rw [List.getElem?_append, List.length_replicate, List.getElem?_replicate, List.getElem?_replicate]
  split
  · simp
    omega
  · simp
    omega

/-- The carets of a line that starts at `start` stand below what a range covers of it. -/
structure Marks (m : MarkedLine) (r : TextRange) (start : Nat) (line : Text) : Prop where
  shown_eq : m.shown = display line
  /-- The columns from `display u` up to `display (u ++ [c])` are those of `c`. -/
  caretBelow_iff : r.Covers start line → ∀ u c v, line = u ++ c :: v → ∀ column,
    (display u).length ≤ column → column < (display (u ++ [c])).length →
      (m.CaretBelow column ↔ r.Contains (start + byteLen u))
  column_add_carets_le : r.Covers start line → m.column + m.carets ≤ m.shown.length
  carets_eq_one : ¬ r.Covers start line → m.carets = 1
  /-- The carets start where the range does, or with the line. -/
  column_eq : ∃ u v, line = u ++ v ∧ start + byteLen u = max start r.start ∧ m.column = (display u).length

/-- Line `k` of a text, counted from 0, as it is marked under a range: with the message behind the
    carets of the first line, and the numbers of all lines as wide as the last. -/
structure Shows (m : MarkedLine) (t : Text) (r : TextRange) (message : Text) (k : Nat) : Prop where
  number_length : m.number.length = (Text.decimal (Text.feedsBefore t r.last + 1)).length
  number_eq : ∃ blanks, m.number = List.replicate blanks ' ' ++ Text.decimal (k + 1)
  source_steady : ∀ c ∈ m.source, c ∉ Text.unsteady
  label_eq : m.label = if k = Text.feedsBefore t r.start ∧ message ≠ [] then ' ' :: message else []
  marks : ∃ before line after, t = before ++ line ++ after ∧ IsLine before line after ∧ before.count '\n' = k ∧
    m.Marks r (byteLen before) line

end MarkedLine

namespace Row

variable {row : Row} {r : TextRange} {start : Nat} {front middle back u v : Text} {c : Char} {gutter : Nat} {label : Text}

def marked (row : Row) (gutter : Nat) (label : Text) : MarkedLine where
  number := (Text.decimal row.number).leftpad gutter ' '
  shown := display row.line
  column := row.column
  carets := row.carets
  label := if label.isEmpty then [] else ' ' :: label

theorem rows_marked (h : (Text.decimal row.number).length ≤ gutter) :
    (row.marked gutter label).rows = [row.sourceLine gutter, row.caretLine gutter label] := by
  have hlength : ((Text.decimal row.number).leftpad gutter ' ').length = gutter := by
    rw [List.length_leftpad, Nat.max_eq_left h]
  have hshown : display row.line = row.line.flatMap shown := by
    rw [display, funext Text.displayChar_eq_shown]
  simp only [MarkedLine.rows, MarkedLine.source, MarkedLine.underline, MarkedLine.pointer, marked, hlength, hshown,
    sourceLine, caretLine, List.append_assoc]

namespace Cut

theorem column_eq_length (h : row.Cut r start front middle back) : row.column = (display front).length := by
  rw [h.column_eq, Text.length_display]

theorem carets_eq_length (h : row.Cut r start front middle back) : row.carets = max 1 (display middle).length := by
  rw [h.carets_eq, Text.length_display]

/-- The range covers those characters that are not before it and not behind it. -/
theorem contains_iff (h : row.Cut r start front middle back) (hline : row.line = u ++ c :: v) :
    r.Contains (start + byteLen u) ↔ byteLen front ≤ byteLen u ∧ byteLen u < byteLen (front ++ middle) := by
  have hfront := h.front_end
  have hmiddle := h.middle_end
  have hpos := c.utf8Size_pos
  rw [hline, Text.byteLen_append u, Text.byteLen_cons] at hfront hmiddle
  unfold TextRange.Contains
  omega

theorem covers_iff (h : row.Cut r start front middle back) : r.Covers start row.line ↔ middle ≠ [] := by
  constructor
  · intro hx hnil
    obtain ⟨u, c, v, hline, hin⟩ := hx
    subst hnil
    have hle := (h.contains_iff hline).1 hin
    rw [List.append_nil] at hle
    omega
  · intro hne
    obtain ⟨c, middle, rfl⟩ := List.exists_cons_of_ne_nil hne
    have hpos := c.utf8Size_pos
    have hline : row.line = front ++ c :: (middle ++ back) := by
      rw [h.line_eq]
      simp
    refine ⟨front, c, middle ++ back, hline, (h.contains_iff hline).2 ⟨Nat.le_refl _, ?_⟩⟩
    rw [Text.byteLen_append, Text.byteLen_cons]
    omega

/-- The columns of what the range covers are those of the carets. -/
theorem column_add_carets (h : row.Cut r start front middle back) (hne : middle ≠ []) :
    row.column + row.carets = (display (front ++ middle)).length := by
  obtain ⟨c, middle, rfl⟩ := List.exists_cons_of_ne_nil hne
  have hpos : 0 < (display (c :: middle)).length := by
    rw [display, List.flatMap_cons, List.length_append]
    exact Nat.add_pos_left (Text.length_displayChar_pos c) _
  rw [h.column_eq_length, h.carets_eq_length, Text.display_append, List.length_append]
  omega

theorem caretBelow_iff (h : row.Cut r start front middle back) (hne : middle ≠ []) (hline : row.line = u ++ c :: v)
    {column : Nat} (hle : (display u).length ≤ column) (hlt : column < (display (u ++ [c])).length) :
    (row.marked gutter label).CaretBelow column ↔ r.Contains (start + byteLen u) := by
  have hfront := Text.in_or_behind (hline.symm.trans (h.line_eq.trans (List.append_assoc _ _ _)))
  have hmiddle := Text.in_or_behind (hline.symm.trans h.line_eq)
  rw [h.contains_iff hline, MarkedLine.caretBelow_iff]
  show row.column ≤ column ∧ column < row.column + row.carets ↔ _
  rw [h.column_add_carets hne, h.column_eq_length]
  omega

theorem marks (h : row.Cut r start front middle back) (hstart : r.start ≤ start + byteLen row.line) :
    (row.marked gutter label).Marks r start row.line where
  shown_eq := rfl
  caretBelow_iff hcovers _ _ _ hline _ hle hlt := h.caretBelow_iff (h.covers_iff.1 hcovers) hline hle hlt
  column_add_carets_le hcovers := by
    show row.column + row.carets ≤ (display row.line).length
    rw [h.column_add_carets (h.covers_iff.1 hcovers), h.line_eq, Text.display_append (front ++ middle), List.length_append]
    exact Nat.le_add_right _ _
  carets_eq_one hcovers := by
    show row.carets = 1
    rw [h.carets_eq_length, not_ne_iff.1 fun hne => hcovers (h.covers_iff.2 hne)]
    rfl
  column_eq := by
    refine ⟨front, middle ++ back, h.line_eq.trans (List.append_assoc _ _ _), ?_, h.column_eq_length⟩
    rw [h.front_end, Nat.min_eq_left hstart]

end Cut

end Row

/-! ## Line numbers -/

namespace Text

theorem length_decimal_mono {m n : Nat} (h : m ≤ n) : (decimal m).length ≤ (decimal n).length := by
  have hpos : 0 < (decimal n).length := Nat.length_toDigits_pos
  have hlt : n < 10 ^ (decimal n).length := (Nat.length_toDigits_le_iff (by decide) hpos).1 (Nat.le_refl _)
  exact (Nat.length_toDigits_le_iff (by decide) hpos).2 (Nat.lt_of_le_of_lt h hlt)

theorem isDigit_of_mem_decimal {n : Nat} {c : Char} (hc : c ∈ decimal n) : c.isDigit = true :=
  Nat.isDigit_of_mem_toDigits (by decide) (by decide) hc

theorem not_mem_unsteady_of_mem_decimal {n : Nat} {c : Char} (hc : c ∈ decimal n) : c ∉ unsteady := by
  have hdigit := isDigit_of_mem_decimal hc
  intro hmem
  simp only [unsteady, List.mem_cons, List.not_mem_nil, or_false] at hmem
  rcases hmem with rfl | rfl | rfl | rfl <;> exact absurd hdigit (by decide)

end Text

theorem Row.source_marked_steady {row : Row} {gutter : Nat} {label : Text} (h : '\n' ∉ row.line) :
    ∀ c ∈ (row.marked gutter label).source, c ∉ Text.unsteady := by
  have hblank : ' ' ∉ Text.unsteady := by decide
  have hbar : '|' ∉ Text.unsteady := by decide
  intro c hc
  simp only [MarkedLine.source, marked, List.leftpad, List.mem_append] at hc
  rcases hc with ((hc | hc) | hc) | hc
  · rw [(List.mem_replicate.1 hc).2]
    exact hblank
  · exact Text.not_mem_unsteady_of_mem_decimal hc
  · obtain rfl | rfl : c = ' ' ∨ c = '|' := by simpa [or_comm] using hc
    · exact hblank
    · exact hbar
  · exact Text.not_mem_unsteady_of_mem_display h c hc

/-! ## Snippets -/

namespace Snippet

variable {t : Text} {r : TextRange} {message : Text}

/-- Rows as marked lines, with a label behind the carets of the first. -/
def markRows (gutter : Nat) (label : Text) : List Row → List MarkedLine
  | [] => []
  | row :: rows => row.marked gutter label :: rows.map (·.marked gutter [])

def markedLines (s : Snippet) (message : Text) : List MarkedLine := markRows s.gutter message s.rows

theorem rowLines_eq_flatMap {gutter : Nat} {label : Text} {rows : List Row}
    (h : ∀ row ∈ rows, (Text.decimal row.number).length ≤ gutter) :
    rowLines gutter label rows = (markRows gutter label rows).flatMap MarkedLine.rows := by
  have hrest : ∀ rows : List Row, (∀ row ∈ rows, (Text.decimal row.number).length ≤ gutter) →
      rowLines gutter [] rows = (rows.map (·.marked gutter [])).flatMap MarkedLine.rows := by
    intro rows h
    induction rows with
    | nil => rfl
    | cons row rows ih =>
      rw [rowLines, List.map_cons, List.flatMap_cons, Row.rows_marked (h row List.mem_cons_self),
        ih fun row' hrow' => h row' (List.mem_cons_of_mem row hrow')]
      rfl
  cases rows with
  | nil => rfl
  | cons row rows =>
    rw [rowLines, markRows, List.flatMap_cons, Row.rows_marked (h row List.mem_cons_self),
      hrest rows fun row' hrow' => h row' (List.mem_cons_of_mem row hrow')]
    rfl

/-- No line under a range has a longer number than the last. -/
theorem length_decimal_le_gutter : ∀ row ∈ (of t r).rows, (Text.decimal row.number).length ≤ (of t r).gutter := by
  intro row hrow
  have hnumber : row.number ∈ (linesUnder t (fit t r)).map (· + 1) := by
    rw [← map_number_rows]
    exact List.mem_map_of_mem hrow
  obtain ⟨k, hk, hk'⟩ := List.mem_map.1 hnumber
  rw [linesUnder, List.mem_range'_1] at hk
  rw [gutter_of]
  exact Text.length_decimal_mono (by omega)

theorem lines_eq (t : Text) (r : TextRange) (message : Text) :
    (of t r).lines message = "  |".toList :: ((of t r).markedLines message).flatMap MarkedLine.rows := by
  rw [lines, rowLines_eq_flatMap length_decimal_le_gutter]
  rfl

/-- A row of a line under the range, marked, with the label that the line is to have. -/
theorem shows_marked {k : Nat} {row : Row} {label : Text} (hrow : row.IsOf t (fit t r) k)
    (hk : k ∈ linesUnder t (fit t r))
    (hlabel : label = if k = Text.feedsBefore t (fit t r).start then message else []) :
    (row.marked (of t r).gutter label).Shows t (fit t r) message k := by
  obtain ⟨hnumber, before, after, front, middle, back, ht, hl, hcount, hcut⟩ := hrow
  rw [linesUnder, List.mem_range'_1] at hk
  have hwidth : (Text.decimal (k + 1)).length ≤ (of t r).gutter := by
    rw [gutter_of]
    exact Text.length_decimal_mono (by omega)
  have hstart : (fit t r).start ≤ byteLen before + byteLen row.line := by
    have hle := (isBoundary_fit_start t r).le_byteLen
    have hfeeds := hk.1
    rw [← hcount] at hfeeds
    generalize (fit t r).start = n at hle hfeeds ⊢
    subst ht
    exact Text.le_of_feedsBefore_le hl hle hfeeds
  constructor
  · show ((Text.decimal row.number).leftpad _ ' ').length = _
    rw [List.length_leftpad, hnumber, Nat.max_eq_left hwidth, gutter_of]
  · exact ⟨_, by rw [← hnumber]; rfl⟩
  · exact Row.source_marked_steady hl.feed_not_mem
  · have hmarked : (row.marked (of t r).gutter label).label = if label.isEmpty then [] else ' ' :: label := rfl
    rw [hmarked, hlabel]
    by_cases hfirst : k = Text.feedsBefore t (fit t r).start
    · cases message with
      | nil => simp
      | cons c message => simp [hfirst]
    · simp [hfirst]
  · exact ⟨before, row.line, after, ht, hl, hcount, hcut.marks hstart⟩

/-- The lines of a snippet are those under its range, each marked. -/
theorem forall₂_markedLines (t : Text) (r : TextRange) (message : Text) :
    List.Forall₂ (fun k m => m.Shows t (fit t r) message k) (linesUnder t (fit t r)) ((of t r).markedLines message) := by
  have hle := Text.feedsBefore_mono t (fit t r).start_le_last
  have hrows := forall₂_rows t r
  have hcons : linesUnder t (fit t r) = Text.feedsBefore t (fit t r).start ::
      List.range' (Text.feedsBefore t (fit t r).start + 1)
        (Text.feedsBefore t (fit t r).last - Text.feedsBefore t (fit t r).start) := by
    rw [linesUnder, Nat.succ_sub hle]
    rfl
  have hfirst : Text.feedsBefore t (fit t r).start ∈ linesUnder t (fit t r) := by
    rw [hcons]
    exact List.mem_cons_self
  unfold markedLines
  rw [hcons] at hrows ⊢
  cases hrows' : (of t r).rows with
  | nil =>
    rw [hrows'] at hrows
    cases hrows
  | cons row rows =>
    rw [hrows'] at hrows
    obtain ⟨hrow, hrest⟩ := List.forall₂_cons.1 hrows
    refine .cons (shows_marked hrow hfirst (if_pos rfl).symm) (List.forall₂_map_right_iff.2 ?_)
    refine ((List.forall₂_and_left _ _).2 ⟨fun k hk => hk, hrest⟩).imp fun k row' hrow' => ?_
    have hlater := List.mem_range'_1.1 hrow'.1
    refine shows_marked hrow'.2 ?_ (if_neg (by omega)).symm
    rw [hcons]
    exact List.mem_cons_of_mem _ hrow'.1

end Snippet

namespace Diagnostic

variable {sources : Sources} {d : Diagnostic} {span : Span} {t : Text}

/-- A diagnostic about a range of a text: its headline, the place, a row without text, the marked
    lines, and its notes. -/
theorem render_eq_rows (hplace : d.place = .span span) (htext : sources.text? span.file = some t) :
    d.render sources = (d.headline :: (" --> ".toList ++ sources.nameOf span.file ++
        ':' :: Text.decimal (Snippet.of t span.range).line ++ ':' :: Text.decimal (Snippet.of t span.range).column) ::
      "  |".toList :: ((Snippet.of t span.range).markedLines d.message).flatMap MarkedLine.rows ++ d.noteLines).flatMap
        (· ++ ['\n']) := by
  simp only [render, lines, placeLines, hplace, htext, Snippet.lines_eq, List.cons_append]

end Diagnostic

/-- A range of a text, brought to the greatest boundaries that are not past its ends or the text, its
    stop not before its start. -/
structure TextRange.Fits (r : TextRange) (t : Text) (r' : TextRange) : Prop where
  start : IsGreatest {n | Text.IsBoundary t n ∧ n ≤ min r.start (byteLen t)} r'.start
  stop : ∃ n, IsGreatest {n | Text.IsBoundary t n ∧ n ≤ min r.stop (byteLen t)} n ∧ r'.stop = max r'.start n

theorem TextRange.fits_iff {t : Text} {r r' : TextRange} : r.Fits t r' ↔ r' = Snippet.fit t r := by
  constructor
  · intro h
    obtain ⟨stop, hstop, hmax⟩ := h.stop
    have hstart := h.start.unique (Text.isGreatest_floorBoundary t r.start)
    obtain rfl := hstop.unique (Text.isGreatest_floorBoundary t r.stop)
    cases r'
    rw [mk.injEq]
    exact ⟨hstart, hmax.trans (congrArg (max · _) hstart)⟩
  · intro h
    subst h
    exact ⟨Text.isGreatest_floorBoundary t r.start, _, Text.isGreatest_floorBoundary t r.stop, rfl⟩

namespace Diagnostic

variable {sources : Sources} {d : Diagnostic} {span : Span} {t : Text}

/-- Below a row without text, a diagnostic about a range of a text shows each line from that of the
    start of the range, brought to boundaries, to that of its last byte, once and in order. What
    there is to see of a line and its carets stand behind bars in one column; the carets
    are below what the range covers of the line. -/
theorem render_carets (hplace : d.place = .span span) (htext : sources.text? span.file = some t) :
    ∃ r line column marked, span.range.Fits t r ∧
      d.render sources = (d.headline ::
        (" --> ".toList ++ sources.nameOf span.file ++ ':' :: Text.decimal line ++ ':' :: Text.decimal column) ::
        "  |".toList :: marked.flatMap MarkedLine.rows ++ d.noteLines).flatMap (· ++ ['\n']) ∧
      List.Forall₂ (fun k m => m.Shows t r d.message k)
        (List.range' (Text.feedsBefore t r.start) (Text.feedsBefore t r.last + 1 - Text.feedsBefore t r.start)) marked := by
  have hfits : span.range.Fits t (Snippet.fit t span.range) := TextRange.fits_iff.2 rfl
  have hmarked := Snippet.forall₂_markedLines t span.range d.message
  exact ⟨_, _, _, _, hfits, render_eq_rows hplace htext, hmarked⟩

def crossedText : Text := "x\ty\r\nab é\n".toList

def crossedSources : Sources := .ofList [("m.py".toList, some crossedText)]

/-- From the carriage return into the last character of the next line. -/
def crossingSpan : Span := ⟨0, ⟨3, 9⟩⟩

def crossingWarning : Diagnostic := ⟨"W1".toList, .warning, "odd".toList, .span crossingSpan, []⟩

theorem render_carets_crossing :
    crossingWarning.place = .span crossingSpan ∧ crossedSources.text? crossingSpan.file = some crossedText ∧
      ∃ place marked, crossingWarning.render crossedSources = ("warning[W1]: odd".toList :: place :: "  |".toList ::
          marked.flatMap MarkedLine.rows).flatMap (· ++ ['\n']) ∧
        List.Forall₂ (fun k m => m.Shows crossedText ⟨3, 8⟩ "odd".toList k) [0, 1] marked := by
  have hplace : crossingWarning.place = .span crossingSpan := rfl
  have htext : crossedSources.text? crossingSpan.file = some crossedText := rfl
  refine ⟨hplace, htext, ?_⟩
  obtain ⟨r, line, column, marked, hfits, hrender, hmarked⟩ := render_carets hplace htext
  obtain rfl : r = ⟨3, 8⟩ := TextRange.fits_iff.1 hfits
  have hhead : crossingWarning.headline = "warning[W1]: odd".toList := rfl
  have hnotes : crossingWarning.noteLines = [] := rfl
  rw [hhead, hnotes, List.append_nil] at hrender
  exact ⟨_, marked, hrender, hmarked⟩

example : crossingWarning.render crossedSources =
    "warning[W1]: odd\n --> m.py:1:5\n  |\n1 | x  y␍\n  |     ^ odd\n2 | ab é\n  | ^^^\n".toList := by
  decide +kernel

end Diagnostic

end Polyglot
