/-
  Polyglot.Proofs.Diagnostic.Checked — nothing that a rendering does on its way can fail.

  `Diagnostic.render?` renders with a check before every step that asks for something: a
  line must be in the table, a cut must go from one boundary of the text to another that is
  not before it, a position is clamped between bounds that are in order, and no difference
  is below zero. Whatever is known of the files, and wherever the range lies, every check
  holds, and what comes out is the rendering (`render_checked`).

  The walk back to a boundary stops at zero (`retreat?_eq_some`), the line of a start is not
  past it (`lineAt_eq_iff`), and a line's bounds are boundaries in order. That settles all but
  the columns, and those grow with the offset (`columnOf_mono`).
-/

import Polyglot.Proofs.Diagnostic.Location

namespace Polyglot

/-- A position is a boundary if the text can be cut there. -/
instance (t : Text) (n : Nat) : Decidable (Text.IsBoundary t n) :=
  decidable_of_iff ((Text.splitBytes? t n).isSome = true) <| by
    simp only [Option.isSome_iff_exists, Prod.exists, Text.splitBytes?_eq_some_iff, Text.IsBoundary]

namespace LineTable

variable {t : Text} {line pos : Nat}

/-- The line of a position, which is one below the number of lines that have started by then. -/
def lineAt? (table : LineTable) (pos : Nat) : Option Nat := Snippet.sub? (table.startedBy pos) 1

/-- Where a line stops: one before the next one starts, or where the text does. -/
def stopOf? (table : LineTable) (line : Nat) : Option Nat :=
  match table.starts[line + 1]? with
  | some next => Snippet.sub? next 1
  | none => some table.size

/-- A line with the positions where it starts and stops. -/
def cut? (table : LineTable) (line : Nat) : Option (Nat × Nat × Text) := do
  let start ← table.starts[line]?
  let stop ← table.stopOf? line
  let text ← Text.slice? table.text start (max start stop)
  return (start, max start stop, text)

end LineTable

namespace Snippet

theorem lt_of_sub?_one {n m : Nat} (h : sub? n 1 = some m) : m < n := by
  rw [sub?] at h
  split at h
  · have := Option.some.inj h
    omega
  · cases h

/-- A position taken back byte by byte until a character starts there or nothing is left. -/
def retreat? (t : Text) (n : Nat) : Option Nat :=
  if 0 < n ∧ ¬ Text.IsBoundary t n then
    match _ : sub? n 1 with
    | some m => retreat? t m
    | none => none
  else some n
termination_by n
decreasing_by exact lt_of_sub?_one ‹_›

/-- `fit` with its walks back checked. -/
def fit? (t : Text) (r : TextRange) : Option TextRange := do
  let start ← retreat? t (min r.start (Text.byteLen t))
  let stop ← retreat? t (min r.stop (Text.byteLen t))
  return { start, stop := max start stop }

/-- How far into a line a position is, when it is brought to the line first. -/
def offset? (pos start stop : Nat) : Option Nat := do
  let clamped ← clamp? pos start stop
  sub? clamped start

/-- The last position that a range covers; a range that covers nothing has its stop instead. -/
def final? (r : TextRange) : Option Nat := if r.start < r.stop then sub? r.stop 1 else some r.stop

/-- `row?` with its difference of columns checked. -/
def checkedRow? (table : LineTable) (r : TextRange) (line : Nat) : Option Row := do
  let (start, stop, text) ← table.cut? line
  let first ← offset? r.start start stop
  let last ← offset? r.stop start stop
  let width ← sub? (columnOf text last) (columnOf text first)
  return { number := line + 1, line := text, column := columnOf text first, carets := max 1 width }

/-- `of?` with the search for lines and all differences checked. -/
def checked? (t : Text) (r : TextRange) : Option Snippet := do
  let table := LineTable.ofText t
  let range ← fit? t r
  let line ← table.lineAt? range.start
  let (start, _, text) ← table.cut? line
  let before ← sub? range.start start
  let final ← final? range
  let last ← table.lineAt? final
  let rows ← (List.range' line (max line last + 1 - line)).mapM (checkedRow? table range)
  return { line := line + 1, column := columnOf text before + 1, rows }

end Snippet

namespace Diagnostic

def placeLines? (sources : Sources) (d : Diagnostic) : Option (List Text) :=
  match d.place with
  | .nowhere => some []
  | .file id => some [" --> ".toList ++ sources.nameOf id]
  | .span s =>
    let head := " --> ".toList ++ sources.nameOf s.file
    match sources.text? s.file with
    | none => some [head ++ ":?:?".toList, "  | (source unavailable)".toList]
    | some t => do
      let snippet ← Snippet.checked? t s.range
      return (head ++ ':' :: Text.decimal snippet.line ++ ':' :: Text.decimal snippet.column) ::
        snippet.lines d.message

/-- The lines of a diagnostic, each with a line feed; `none` if a step on the way asks for what it
    cannot have. -/
def render? (sources : Sources) (d : Diagnostic) : Option Text := do
  let place ← d.placeLines? sources
  return (d.headline :: place ++ d.noteLines).flatMap (· ++ ['\n'])

end Diagnostic

/-! ## Lines -/

namespace LineTable

variable {t : Text} {line pos : Nat}

theorem lineAt?_eq_some (t : Text) (pos : Nat) : (ofText t).lineAt? pos = some ((ofText t).lineAt pos) :=
  if_pos (startedBy_pos t pos)

/-- A line starts after the one before it, so there is a byte between. -/
theorem stopOf?_eq_some (h : line < (ofText t).starts.size) :
    (ofText t).stopOf? line = some ((ofText t).stopOf line) := by
  have hstart : (ofText t).starts[line]? = some (ofText t).starts[line] := Array.getElem?_eq_getElem h
  unfold stopOf? stopOf
  cases hnext : (ofText t).starts[line + 1]? with
  | none => rfl
  | some next =>
    have hlt := lt_of_pairwise (pairwise_starts t) (Nat.lt_succ_self line) hstart hnext
    exact if_pos (by omega)

theorem exists_cut (h : line < (ofText t).starts.size) :
    ∃ start stop text, (ofText t).starts[line]? = some start ∧ start ≤ stop ∧
      (ofText t).bounds? line = some (start, stop) ∧ Text.slice? t start stop = some text ∧
      (ofText t).cut? line = some (start, stop, text) := by
  have hstart : (ofText t).starts[line]? = some (ofText t).starts[line] := Array.getElem?_eq_getElem h
  have hbounds : (ofText t).bounds? line =
      some ((ofText t).starts[line], max (ofText t).starts[line] ((ofText t).stopOf line)) := by
    rw [bounds?, hstart, Option.map_some]
  obtain ⟨text, htext⟩ := Option.isSome_iff_exists.1 (Snippet.isSome_lineText hbounds)
  refine ⟨_, _, text, hstart, Nat.le_max_left _ _, hbounds, htext, ?_⟩
  simp only [cut?, bind, pure, hstart, stopOf?_eq_some h, Option.bind_some, ofText_text, htext]

end LineTable

namespace Snippet

/-! ## Columns and rows -/

theorem le_columnFrom (column pos offset : Nat) (line : Text) : column ≤ columnFrom column pos offset line := by
  induction line generalizing column pos with
  | nil => exact Nat.le_refl _
  | cons c line ih =>
    rw [columnFrom]
    split
    · exact Nat.le_trans (Nat.le_add_right _ _) (ih _ _)
    · exact Nat.le_refl _

theorem columnFrom_mono {i j : Nat} (h : i ≤ j) (column pos : Nat) (line : Text) :
    columnFrom column pos i line ≤ columnFrom column pos j line := by
  induction line generalizing column pos with
  | nil => exact Nat.le_refl _
  | cons c line ih =>
    rw [columnFrom, columnFrom]
    split
    · rename_i hi
      rw [if_pos (Nat.lt_of_lt_of_le hi h)]
      exact ih _ _
    · split
      · exact Nat.le_trans (Nat.le_add_right _ _) (le_columnFrom _ _ _ _)
      · exact Nat.le_refl _

theorem columnOf_mono {i j : Nat} (h : i ≤ j) (line : Text) : columnOf line i ≤ columnOf line j :=
  columnFrom_mono h 0 0 line

theorem clamp?_of_le {low high : Nat} (h : low ≤ high) (n : Nat) :
    clamp? n low high = some (max low (min n high)) := if_pos h

theorem sub?_of_le {m n : Nat} (h : n ≤ m) : sub? m n = some (m - n) := if_pos h

theorem offset?_of_le {start stop : Nat} (h : start ≤ stop) (pos : Nat) :
    offset? pos start stop = some (max start (min pos stop) - start) := by
  simp only [offset?, bind, clamp?_of_le h, Option.bind_some]
  exact sub?_of_le (Nat.le_max_left _ _)

theorem final?_eq_some (r : TextRange) : final? r = some (if r.start < r.stop then r.stop - 1 else r.stop) := by
  unfold final?
  split
  · exact sub?_of_le (by omega)
  · rfl

theorem fit_start_le_stop (t : Text) (r : TextRange) : (fit t r).start ≤ (fit t r).stop := Nat.le_max_left _ _

/-- Whatever is not a boundary is passed over, so the walk ends where `floorBoundary` does. -/
theorem retreat?_eq_some (t : Text) (n : Nat) : retreat? t n = some (Text.floorBoundary t n) := by
  fun_induction retreat? t n with
  | case1 n hn m hm ih =>
    have hpred : m = n - 1 := by
      rw [sub?_of_le hn.1] at hm
      exact (Option.some.inj hm).symm
    have hne : Text.floorBoundary t n ≠ n := fun h => hn.2 (h ▸ Text.isBoundary_floorBoundary t n)
    have hle := Text.floorBoundary_le t n
    have hle' := Text.floorBoundary_le t m
    have hdown := Text.le_floorBoundary (Text.isBoundary_floorBoundary t n) (show Text.floorBoundary t n ≤ m by omega)
    have hup := Text.le_floorBoundary (Text.isBoundary_floorBoundary t m) (show Text.floorBoundary t m ≤ n by omega)
    rw [ih, Nat.le_antisymm hdown hup]
  | case2 n hn hm => rw [sub?_of_le hn.1] at hm; cases hm
  | case3 n hn =>
    have hle := Text.floorBoundary_le t n
    rcases Nat.eq_zero_or_pos n with rfl | hpos
    · rw [Nat.le_zero.1 hle]
    · have hb : Text.IsBoundary t n := Classical.not_not.1 fun h => hn ⟨hpos, h⟩
      rw [Nat.le_antisymm hle (Text.le_floorBoundary hb (Nat.le_refl n))]

theorem floorBoundary_min (t : Text) (n : Nat) :
    Text.floorBoundary t (min n (Text.byteLen t)) = Text.floorBoundary t n := by
  have h := Text.isGreatest_floorBoundary t (min n (Text.byteLen t))
  rw [Nat.min_assoc, Nat.min_self] at h
  exact h.unique (Text.isGreatest_floorBoundary t n)

theorem fit?_eq_some (t : Text) (r : TextRange) : fit? t r = some (fit t r) := by
  simp only [fit?, bind, pure, retreat?_eq_some, floorBoundary_min, Option.bind_some]
  rfl

/-- On a line of the table, the checks of a row hold. -/
theorem checkedRow?_eq {t : Text} {r : TextRange} (hr : r.start ≤ r.stop) {line : Nat}
    (h : line < (LineTable.ofText t).starts.size) :
    checkedRow? (LineTable.ofText t) r line = row? (LineTable.ofText t) r line := by
  obtain ⟨start, stop, text, -, hle, hbounds, hslice, hcut⟩ := LineTable.exists_cut h
  have hoffsets : max start (min r.start stop) - start ≤ max start (min r.stop stop) - start := by omega
  have hsub (n : Nat) : sub? (max start (min n stop)) start = some (max start (min n stop) - start) :=
    sub?_of_le (Nat.le_max_left _ _)
  simp only [checkedRow?, row?, bind, pure, hcut, hbounds, LineTable.ofText_text, hslice, offset?_of_le hle,
    clamp?_of_le hle, hsub, sub?_of_le (columnOf_mono hoffsets text), Option.bind_some]

theorem mapM_congr {α β : Type} {f g : α → Option β} {l : List α} (h : ∀ a ∈ l, f a = g a) : l.mapM f = l.mapM g := by
  induction l with
  | nil => rfl
  | cons a l ih =>
    rw [List.mapM_cons, List.mapM_cons, h a List.mem_cons_self, ih fun b hb => h b (List.mem_cons_of_mem a hb)]

/-! ## Snippets -/

theorem checked?_eq_some (t : Text) (r : TextRange) : checked? t r = some (of t r) := by
  have hline := LineTable.lineAt_lt t (fit t r).start
  obtain ⟨start, stop, text, hstart, -, hbounds, hslice, hcut⟩ := LineTable.exists_cut hline
  obtain ⟨hnumber, hcolumn, hrows⟩ := of_eq_of_bounds hbounds hslice
  -- the search never comes to a line that starts behind the position
  obtain ⟨start', hstart', hle, -⟩ := LineTable.lineAt_eq_iff.1 (rfl : (LineTable.ofText t).lineAt (fit t r).start = _)
  have hbefore : start ≤ (fit t r).start := by
    rw [hstart] at hstart'
    have := Option.some.inj hstart'
    omega
  have hchecked : (linesOf (LineTable.ofText t) (fit t r)).mapM (checkedRow? (LineTable.ofText t) (fit t r)) =
      some (of t r).rows := by
    rw [← hrows]
    exact mapM_congr fun line hmem => checkedRow?_eq (fit_start_le_stop t r) (lt_of_mem_linesOf hmem)
  rw [linesOf] at hchecked
  simp only [checked?, bind, pure, fit?_eq_some, LineTable.lineAt?_eq_some, hcut, sub?_of_le hbefore, final?_eq_some, hchecked,
    Option.bind_some, ← hnumber, ← hcolumn]

end Snippet

namespace Diagnostic

theorem placeLines?_eq_some (sources : Sources) (d : Diagnostic) :
    d.placeLines? sources = some (d.placeLines sources) := by
  unfold placeLines? placeLines
  cases d.place with
  | nowhere => rfl
  | file id => rfl
  | span s =>
    cases htext : sources.text? s.file with
    | none => simp only [htext]
    | some t =>
      simp only [htext, Snippet.checked?_eq_some]
      rfl

/-- Every check on the way to a rendering holds, for whatever is known of the files and for every
    diagnostic. -/
theorem render_checked (sources : Sources) (d : Diagnostic) : d.render? sources = some (d.render sources) := by
  simp only [render?, bind, pure, placeLines?_eq_some, Option.bind_some]
  rfl

end Diagnostic

end Polyglot
