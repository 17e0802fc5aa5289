/-
  Polyglot.Proofs.Diagnostic.Location — the place that a rendering names is the place
  where the range starts.

  A range starts at the last boundary that is not past its position or the text
  (`isGreatest_floorBoundary`). The line that the table gives for it, and the column that
  is counted along that line, are what is counted in the text without a table: the line
  feeds before the place, and the characters between it and the last of them
  (`place_of_isLine`, `render_location`).
-/

import Mathlib.Algebra.Ring.Nat
import Mathlib.Data.List.DropRight
import Mathlib.Order.Bounds.Basic
import Polyglot.Diagnostic.Rendering
import Polyglot.Literal.Closing
import Polyglot.Proofs.Diagnostic.Lines

namespace Polyglot

open Text (IsLine byteLen)

/-! ## Line feeds as bytes -/

namespace Utf8

/-- The byte of a line feed is in no other character. -/
theorem count_feed_encodeChar (c : Char) : (encodeChar c).count 0x0A = if c = '\n' then 1 else 0 := by
  by_cases hc : c = '\n'
  · subst hc
    rfl
  rw [if_neg hc, List.count_eq_zero]
  intro hmem
  rcases Literal.encodeChar_ascii_or c with ⟨hone, hv⟩ | hall
  · rw [hone, List.mem_singleton] at hmem
    have hn := toNat_toUInt8 (n := c.toNat) (by omega)
    rw [← hmem] at hn
    exact hc (Char.toNat_inj.1 hn.symm)
  · have hbyte := hall _ hmem
    simp at hbyte

theorem count_feed_encode (t : Text) : (encode t).count 0x0A = t.count '\n' := by
  induction t with
  | nil => rfl
  | cons c t ih =>
    rw [encode_cons, List.count_append, ih, count_feed_encodeChar, List.count_cons]
    by_cases hc : c = '\n'
    · simp [hc]
      omega
    · simp [hc]

end Utf8

theorem Text.isGreatest_floorBoundary (t : Text) (n : Nat) :
    IsGreatest {k | IsBoundary t k ∧ k ≤ min n (byteLen t)} (floorBoundary t n) := by
  have hb := isBoundary_floorBoundary t n
  constructor
  · exact ⟨hb, Nat.le_min.2 ⟨floorBoundary_le t n, hb.le_byteLen⟩⟩
  · intro k hk
    exact le_floorBoundary hk.1 (Nat.le_trans hk.2 (Nat.min_le_left _ _))

/-- The part of a line before a place in it is what stands between the last line feed and the place. -/
theorem Text.rtakeWhile_of_isLine {before front back after : Text} (h : IsLine before (front ++ back) after) :
    (before ++ front).rtakeWhile (· ≠ '\n') = front := by
  have hfront : ∀ c ∈ front.reverse, decide (c ≠ '\n') = true := by
    intro c hc
    refine decide_eq_true fun hfeed => h.feed_not_mem ?_
    subst hfeed
    exact List.mem_append_left back (List.mem_reverse.1 hc)
  rw [List.rtakeWhile, List.reverse_append, List.takeWhile_append_of_pos hfront]
  rcases h.feed_before with rfl | ⟨u, rfl⟩
  · simp
  · simp

namespace Snippet

/-! ## Columns -/

/-- Counting columns stops at the offset, whatever stands there. -/
theorem columnFrom_append (column pos : Nat) (u v : Text) :
    columnFrom column pos (pos + byteLen u) (u ++ v) = column + (u.map width).sum := by
  induction u generalizing column pos with
  | nil =>
    cases v with
    | nil => rfl
    | cons c v =>
      rw [List.nil_append, columnFrom, Text.byteLen_nil, Nat.add_zero, if_neg (Nat.lt_irrefl pos)]
      rfl
  | cons c u ih =>
    have hc := c.utf8Size_pos
    rw [List.cons_append, columnFrom, if_pos (by rw [Text.byteLen_cons]; omega), Text.byteLen_cons, ← Nat.add_assoc,
      ih, List.map_cons, List.sum_cons, Nat.add_assoc]

theorem columnOf_append (u v : Text) : columnOf (u ++ v) (byteLen u) = (u.map width).sum := by
  have h := columnFrom_append 0 0 u v
  rwa [Nat.zero_add, Nat.zero_add] at h

/-! ## The place of a range -/

theorem of?_eq_some (t : Text) (r : TextRange) : of? t r = some (of t r) := (Option.some_get _).symm

/-- A snippet, given the bounds of the line it starts on and that line. -/
theorem of_eq_of_bounds {t lineText : Text} {r : TextRange} {start stop : Nat}
    (hb : (LineTable.ofText t).bounds? ((LineTable.ofText t).lineAt (fit t r).start) = some (start, stop))
    (ht : Text.slice? t start stop = some lineText) :
    (of t r).line = (LineTable.ofText t).lineAt (fit t r).start + 1 ∧
      (of t r).column = columnOf lineText ((fit t r).start - start) + 1 ∧
      (linesOf (LineTable.ofText t) (fit t r)).mapM (row? (LineTable.ofText t) (fit t r)) = some (of t r).rows := by
  have h := of?_eq_some t r
  simp only [of?, bind, pure, hb, ht, Option.bind_some, Option.bind_eq_some_iff, Option.some.injEq] at h
  obtain ⟨rows, hrows, heq⟩ := h
  rw [← heq]
  exact ⟨rfl, rfl, hrows⟩

/-- A range that starts behind `front` on a line starts on the line with that number, at the column
    that the characters of `front` take. -/
theorem place_of_isLine {before front back after : Text} {r : TextRange}
    (hl : IsLine before (front ++ back) after)
    (hstart : (fit (before ++ (front ++ back) ++ after) r).start = byteLen before + byteLen front) :
    (of (before ++ (front ++ back) ++ after) r).line = before.count '\n' + 1 ∧
      (of (before ++ (front ++ back) ++ after) r).column = (front.map width).sum + 1 := by
  have hline : (LineTable.ofText (before ++ (front ++ back) ++ after)).lineAt
      (fit (before ++ (front ++ back) ++ after) r).start = before.count '\n' := by
    apply LineTable.lineAt_of_isLine hl
    · omega
    · rw [hstart, Text.byteLen_append]
      omega
  have hb := LineTable.bounds?_of_isLine hl
  rw [← hline] at hb
  obtain ⟨hnumber, hcolumn, -⟩ := of_eq_of_bounds hb (LineTable.slice?_of_isLine _ _ _)
  rw [hline] at hnumber
  rw [hstart, Nat.add_sub_cancel_left, columnOf_append] at hcolumn
  exact ⟨hnumber, hcolumn⟩

end Snippet

namespace Diagnostic

theorem render_of_span {sources : Sources} {d : Diagnostic} {span : Span} {t : Text} (hplace : d.place = .span span)
    (htext : sources.text? span.file = some t) :
    ∃ rest, d.render sources = d.headline ++ '\n' :: (" --> ".toList ++ sources.nameOf span.file ++
      ':' :: Text.decimal (Snippet.of t span.range).line ++ ':' :: Text.decimal (Snippet.of t span.range).column) ++
      '\n' :: rest := by
  simp only [render, lines, placeLines, hplace, htext, List.cons_append, List.flatMap_cons, List.append_assoc,
    List.nil_append]
  exact ⟨_, rfl⟩

/-- Under its headline a diagnostic about a range of a text names the place where the range starts,
    behind all of the text up to the last boundary that is not past the start or the text. Its line is
    one more than there are line feeds among the bytes before it, and its column one more than the
    columns between the last of them and it. -/
theorem render_location {sources : Sources} {d : Diagnostic} {span : Span} {t : Text} (hplace : d.place = .span span)
    (htext : sources.text? span.file = some t) :
    ∃ u v rest, t = u ++ v ∧
      IsGreatest {n | Text.IsBoundary t n ∧ n ≤ min span.range.start (byteLen t)} (byteLen u) ∧
      d.render sources = d.headline ++ '\n' :: (" --> ".toList ++ sources.nameOf span.file ++
        ':' :: Text.decimal (1 + (Utf8.encode u).count 0x0A) ++
        ':' :: Text.decimal (1 + ((u.rtakeWhile (· ≠ '\n')).map fun c => if c = '\t' then 2 else 1).sum)) ++
        '\n' :: rest := by
  obtain ⟨u, v, rfl, hs⟩ := Text.isBoundary_floorBoundary t span.range.start
  obtain ⟨before, front, back, after, rfl, rfl, hl⟩ := Text.exists_isLine u v
  obtain ⟨rest, hrender⟩ := render_of_span hplace htext
  refine ⟨before ++ front, back ++ after, rest, rfl, ?_, ?_⟩
  · rw [hs]
    exact Text.isGreatest_floorBoundary _ _
  have hfront : '\n' ∉ front := fun h => hl.feed_not_mem (List.mem_append_left back h)
  have hcount : (Utf8.encode (before ++ front)).count 0x0A = before.count '\n' := by
    rw [Utf8.count_feed_encode, List.count_append, List.count_eq_zero_of_not_mem hfront, Nat.add_zero]
  have hassoc : before ++ front ++ (back ++ after) = before ++ (front ++ back) ++ after := by simp
  have hstart : (Snippet.fit (before ++ (front ++ back) ++ after) span.range).start = byteLen before + byteLen front := by
    rw [← hassoc, ← Text.byteLen_append]
    exact hs.symm
  obtain ⟨hline, hcolumn⟩ := Snippet.place_of_isLine hl hstart
  rw [hcount, Text.rtakeWhile_of_isLine hl, hrender, hassoc, hline, hcolumn, Nat.add_comm (before.count '\n'),
    Nat.add_comm (front.map _).sum]
  rfl

def tabbedText : Text := "x = 1\n\té = 2\n".toList

def tabbedSources : Sources := .ofList [("m.py".toList, some tabbedText)]

/-- Starts within the character of two bytes behind the tab. -/
def innerSpan : Span := ⟨0, ⟨8, 9⟩⟩

def innerWarning : Diagnostic := ⟨"W1".toList, .warning, "odd".toList, .span innerSpan, []⟩

theorem render_location_inner :
    innerWarning.place = .span innerSpan ∧ tabbedSources.text? innerSpan.file = some tabbedText ∧
      ∃ rest, innerWarning.render tabbedSources = "warning[W1]: odd\n --> m.py:2:3\n".toList ++ rest := by
  have hplace : innerWarning.place = .span innerSpan := rfl
  have htext : tabbedSources.text? innerSpan.file = some tabbedText := rfl
  refine ⟨hplace, htext, ?_⟩
  obtain ⟨u, v, rest, ht, hs, hrender⟩ := render_location hplace htext
  have hlen : byteLen u = byteLen "x = 1\n\t".toList :=
    hs.unique (Text.isGreatest_floorBoundary tabbedText innerSpan.range.start)
  have hsplit : u ++ v = "x = 1\n\t".toList ++ "é = 2\n".toList := ht.symm
  rw [(Text.append_inj_byteLen hsplit hlen).1] at hrender
  exact ⟨rest, hrender⟩

end Diagnostic

end Polyglot
