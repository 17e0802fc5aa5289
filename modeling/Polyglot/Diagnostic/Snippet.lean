/-
  Polyglot.Diagnostic.Snippet — the lines that a range touches and the carets below
  them.

  A range is first brought to boundaries of the text, its end not before its start.
  Columns count displayed characters from the start of the line, a tab as two. A line
  on which the range covers nothing still gets one caret.

  Every cut, clamp and difference on the way is checked; `isSome_of?`: all of
  them are in order for any text and any range.
-/

import Polyglot.Diagnostic.Basic
import Polyglot.Diagnostic.LineTable

namespace Polyglot

/-- A line under a range: `carets` carets stand below it from `column` on, counted from 0. -/
structure Row where
  number : Nat
  line : Text
  column : Nat
  carets : Nat
  deriving DecidableEq

/-- The place at which a range starts, counted from 1, and the lines it touches. -/
structure Snippet where
  line : Nat
  column : Nat
  rows : List Row
  deriving DecidableEq

namespace Snippet

def tabWidth : Nat := 2

def width (c : Char) : Nat := if c = '\t' then tabWidth else 1

/-- The walk of `columnOf` over the characters that start at `pos`, with `column` columns before them. -/
def columnFrom (column pos offset : Nat) : Text → Nat
  | [] => column
  | c :: t => if pos < offset then columnFrom (column + width c) (pos + c.utf8Size) offset t else column

/-- The columns that the characters before a byte offset of a line take. -/
def columnOf (line : Text) (offset : Nat) : Nat := columnFrom 0 0 offset line

/-- `n` brought between two bounds, which must be in order. -/
def clamp? (n low high : Nat) : Option Nat := if low ≤ high then some (max low (min n high)) else none

/-- A difference that must not fall below zero. -/
def sub? (m n : Nat) : Option Nat := if n ≤ m then some (m - n) else none

/-- A range brought to boundaries of a text, its end not before its start. -/
def fit (t : Text) (r : TextRange) : TextRange :=
  let start := Text.floorBoundary t r.start
  { start, stop := max start (Text.floorBoundary t r.stop) }

/-- The row of a line under a range. -/
def row? (table : LineTable) (r : TextRange) (line : Nat) : Option Row := do
  let (lineStart, lineStop) ← table.bounds? line
  let lineText ← Text.slice? table.text lineStart lineStop
  let first ← sub? (← clamp? r.start lineStart lineStop) lineStart
  let last ← sub? (← clamp? r.stop lineStart lineStop) lineStart
  let column := columnOf lineText first
  return { number := line + 1, line := lineText, column, carets := max 1 (columnOf lineText last - column) }

/-- The lines that a range touches: those from its start to its last byte. -/
def linesOf (table : LineTable) (r : TextRange) : List Nat :=
  let first := table.lineAt r.start
  let last := max first (table.lineAt (if r.start < r.stop then r.stop - 1 else r.stop))
  List.range' first (last + 1 - first)

/-- The snippet of a range; `none` if a cut, clamp or difference would be out of order. -/
def of? (t : Text) (r : TextRange) : Option Snippet := do
  let table := LineTable.ofText t
  let range := fit t r
  let line := table.lineAt range.start
  let (lineStart, lineStop) ← table.bounds? line
  let lineText ← Text.slice? t lineStart lineStop
  let rows ← (linesOf table range).mapM (row? table range)
  return { line := line + 1, column := columnOf lineText (range.start - lineStart) + 1, rows }

theorem isSome_bind {α β : Type} {o : Option α} {f : α → Option β} (ho : o.isSome = true)
    (hf : ∀ a, o = some a → (f a).isSome = true) : (o.bind f).isSome = true := by
  obtain ⟨a, rfl⟩ := Option.isSome_iff_exists.1 ho
  exact hf a rfl

theorem isSome_mapM {α β : Type} {f : α → Option β} {l : List α} (h : ∀ a ∈ l, (f a).isSome = true) :
    (l.mapM f).isSome = true := by
  induction l with
  | nil => rfl
  | cons a l ih =>
    obtain ⟨b, hb⟩ := Option.isSome_iff_exists.1 (h a (by simp))
    obtain ⟨bs, hbs⟩ := Option.isSome_iff_exists.1 (ih fun a ha => h a (by simp [ha]))
    simp [hb, hbs]

theorem isSome_lineText {t : Text} {line start stop : Nat}
    (h : (LineTable.ofText t).bounds? line = some (start, stop)) : (Text.slice? t start stop).isSome = true := by
  obtain ⟨hs, he, hle⟩ := LineTable.isBoundary_of_bounds? h
  exact Text.isSome_slice? hle hs he

/-- Clamped to a line, a position is not before its start. -/
theorem isSome_offset {n low high : Nat} (h : low ≤ high) :
    ((clamp? n low high).bind fun m => sub? m low).isSome = true := by
  simp only [clamp?, if_pos h, Option.bind_some, sub?]
  rw [if_pos (by omega)]
  rfl

theorem isSome_row? {t : Text} {line : Nat} (r : TextRange) (h : line < (LineTable.ofText t).starts.size) :
    (row? (LineTable.ofText t) r line).isSome = true := by
  refine isSome_bind (LineTable.isSome_bounds? h) ?_
  rintro ⟨lineStart, lineStop⟩ hb
  have hle := (LineTable.isBoundary_of_bounds? hb).2.2
  refine isSome_bind (isSome_lineText hb) fun lineText _ => ?_
  obtain ⟨first, hf⟩ := Option.isSome_iff_exists.1 (isSome_offset (n := r.start) hle)
  obtain ⟨last, hl⟩ := Option.isSome_iff_exists.1 (isSome_offset (n := r.stop) hle)
  simp only [bind, pure, ← Option.bind_assoc, hf, hl]
  rfl

theorem lt_of_mem_linesOf {t : Text} {r : TextRange} {line : Nat} (h : line ∈ linesOf (LineTable.ofText t) r) :
    line < (LineTable.ofText t).starts.size := by
  have hfirst := LineTable.lineAt_lt t r.start
  have hlast := LineTable.lineAt_lt t (if r.start < r.stop then r.stop - 1 else r.stop)
  simp only [linesOf, List.mem_range'_1] at h
  omega

theorem isSome_of? (t : Text) (r : TextRange) : (of? t r).isSome = true := by
  refine isSome_bind (LineTable.isSome_bounds? (LineTable.lineAt_lt t _)) ?_
  rintro ⟨lineStart, lineStop⟩ hb
  refine isSome_bind (isSome_lineText hb) fun lineText _ => ?_
  exact isSome_bind (isSome_mapM fun line hline => isSome_row? _ (lt_of_mem_linesOf hline)) fun rows _ => rfl

/-- The snippet of a range of a text. -/
def of (t : Text) (r : TextRange) : Snippet := (of? t r).get (isSome_of? t r)

end Snippet

end Polyglot
