/-
  Polyglot.Proofs.Diagnostic.Rows — the rows of a snippet against the lines of its text.

  A line is as far down as there are line feeds among the bytes before any position on it
  (`feedsBefore_of_isLine`), and that is where the table has it (`lineAt_eq_feedsBefore`).
  A snippet has one row for each line from that of the start of its range to that of its
  last byte, in order, and a range cuts the line of each row in three: what is before it,
  what it covers, and what is behind it (`forall₂_rows`).
-/

import Mathlib.Data.List.Forall2
import Polyglot.Proofs.Diagnostic.Checked

namespace Polyglot

open Text (IsLine byteLen)

namespace Text

variable {t u v before line after : Text} {n k : Nat}

/-- How many line feeds there are among the first `n` bytes of a text. -/
def feedsBefore (t : Text) (n : Nat) : Nat := ((Utf8.encode t).take n).count 0x0A

theorem feedsBefore_mono (t : Text) {m n : Nat} (h : m ≤ n) : feedsBefore t m ≤ feedsBefore t n :=
  (List.take_prefix_take_left h).sublist.count_le 0x0A

/-- From the start of a line up to its end, only the line feeds before the line count. -/
theorem feedsBefore_of_isLine (h : IsLine before line after) (hle : byteLen before ≤ n)
    (hge : n ≤ byteLen before + byteLen line) : feedsBefore (before ++ line ++ after) n = before.count '\n' := by
  have hbefore : (Utf8.encode before).length ≤ n := by
    rw [Utf8.length_encode]
    exact hle
  have hline : n - (Utf8.encode before).length ≤ (Utf8.encode line).length := by
    rw [Utf8.length_encode, Utf8.length_encode]
    omega
  have hnone : ((Utf8.encode line).take (n - (Utf8.encode before).length)).count 0x0A = 0 := by
    apply Nat.le_zero.1
    calc ((Utf8.encode line).take (n - (Utf8.encode before).length)).count 0x0A
        ≤ (Utf8.encode line).count 0x0A := (List.take_sublist _ _).count_le 0x0A
      _ = line.count '\n' := Utf8.count_feed_encode line
      _ = 0 := List.count_eq_zero_of_not_mem h.feed_not_mem
  rw [feedsBefore, List.append_assoc, Utf8.encode_append, Utf8.encode_append, List.take_append,
    List.take_of_length_le hbefore, List.take_append_of_le_length hline, List.count_append, hnone, Nat.add_zero,
    Utf8.count_feed_encode]

theorem feedsBefore_append (u v : Text) : feedsBefore (u ++ v) (byteLen u) = u.count '\n' := by
  rw [feedsBefore, Utf8.encode_append, ← Utf8.length_encode, List.take_left, Utf8.count_feed_encode]

/-- What has no more line feeds before it than a line ends with that line or before. -/
theorem le_of_feedsBefore_le (h : IsLine before line after) (hn : n ≤ byteLen (before ++ line ++ after))
    (hle : feedsBefore (before ++ line ++ after) n ≤ before.count '\n') : n ≤ byteLen before + byteLen line := by
  by_contra hgt
  rcases h.feed_after with rfl | ⟨w, rfl⟩
  · simp only [byteLen_append, byteLen_nil] at hn
    omega
  · have hfeed : '\n'.utf8Size = 1 := rfl
    have hlen : byteLen (before ++ line ++ ['\n']) ≤ n := by
      simp only [byteLen_append, byteLen_cons, byteLen_nil, hfeed]
      omega
    have hmono := feedsBefore_mono (before ++ line ++ '\n' :: w) hlen
    rw [show before ++ line ++ '\n' :: w = (before ++ line ++ ['\n']) ++ w by simp] at hmono hle
    rw [feedsBefore_append, List.count_append, List.count_append, List.count_singleton_self] at hmono
    omega

/-- Every position of a text, also one inside a character, is on a line. -/
theorem exists_isLine_at (h : n ≤ byteLen t) : ∃ before line after, t = before ++ line ++ after ∧
    IsLine before line after ∧ byteLen before ≤ n ∧ n ≤ byteLen before + byteLen line := by
  obtain ⟨u, v, rfl, hu⟩ := isBoundary_floorBoundary t n
  have hfloor : byteLen u ≤ n := hu ▸ floorBoundary_le _ n
  obtain ⟨before, front, back, after, rfl, rfl, hl⟩ := exists_isLine u v
  refine ⟨before, front ++ back, after, by simp, hl, by simp only [byteLen_append] at hfloor; omega, ?_⟩
  by_contra hgt
  -- behind the line there is a line feed, and so a boundary closer to the position
  rcases hl.feed_after with rfl | ⟨w, rfl⟩
  · simp only [byteLen_append, byteLen_nil] at h hgt
    omega
  · have hfeed : '\n'.utf8Size = 1 := rfl
    have hb : IsBoundary (before ++ front ++ (back ++ '\n' :: w)) (byteLen before + byteLen (front ++ back) + 1) :=
      ⟨before ++ (front ++ back) ++ ['\n'], w, by simp, by simp [hfeed, Nat.add_assoc]⟩
    have hle : _ ≤ floorBoundary _ n := le_floorBoundary hb (by omega)
    rw [← hu] at hle
    simp only [byteLen_append] at hle
    omega

/-- A text has a line with each number up to that of its line feeds. -/
theorem exists_isLine_of_le_count (h : k ≤ t.count '\n') :
    ∃ before line after, t = before ++ line ++ after ∧ IsLine before line after ∧ before.count '\n' = k := by
  induction k with
  | zero =>
    obtain ⟨before, front, back, after, hu, rfl, hl⟩ := exists_isLine [] t
    obtain ⟨rfl, rfl⟩ := List.append_eq_nil_iff.1 hu.symm
    exact ⟨[], back, after, rfl, hl, rfl⟩
  | succ k ih =>
    obtain ⟨before, line, after, rfl, hl, hcount⟩ := ih (by omega)
    have hline : line.count '\n' = 0 := List.count_eq_zero_of_not_mem hl.feed_not_mem
    rcases hl.feed_after with rfl | ⟨w, rfl⟩
    · simp only [List.count_append, List.count_nil] at h
      omega
    · obtain ⟨before', front, back, after', hu, rfl, hl'⟩ := exists_isLine (before ++ line ++ ['\n']) w
      have hfront : front.count '\n' = 0 :=
        List.count_eq_zero_of_not_mem fun hmem => hl'.feed_not_mem (List.mem_append_left back hmem)
      have hbefore := congrArg (List.count '\n') hu
      simp only [List.count_append, List.count_singleton_self] at hbefore
      refine ⟨before', front ++ back, after', ?_, hl', by omega⟩
      calc before ++ line ++ '\n' :: (back ++ after') = (before ++ line ++ ['\n']) ++ (back ++ after') := by simp
        _ = before' ++ (front ++ back) ++ after' := by rw [hu]; simp

end Text

namespace LineTable

variable {t : Text} {n : Nat}

theorem lineAt_eq_feedsBefore (h : n ≤ byteLen t) : (ofText t).lineAt n = Text.feedsBefore t n := by
  obtain ⟨before, line, after, rfl, hl, hle, hge⟩ := Text.exists_isLine_at h
  rw [lineAt_of_isLine hl hle hge, Text.feedsBefore_of_isLine hl hle hge]

end LineTable

namespace Text

variable {u v : Text} {n : Nat}

/-- A text has one line with a number. -/
theorem IsLine.unique {before line after before' line' after' : Text} (h : IsLine before line after)
    (h' : IsLine before' line' after') (ht : before ++ line ++ after = before' ++ line' ++ after')
    (hcount : before.count '\n' = before'.count '\n') : before = before' ∧ line = line' := by
  have hbounds := LineTable.bounds?_of_isLine h
  rw [ht, hcount, LineTable.bounds?_of_isLine h', Option.some.injEq, Prod.mk.injEq] at hbounds
  rw [List.append_assoc, List.append_assoc] at ht
  obtain ⟨rfl, hrest⟩ := append_inj_byteLen ht hbounds.1.symm
  exact ⟨rfl, (append_inj_byteLen hrest (by omega)).1⟩

/-- A boundary of a text from the end of its front part on is one of the rest. -/
theorem exists_split_right (h : IsBoundary (u ++ v) n) (hle : byteLen u ≤ n) :
    ∃ x y, v = x ++ y ∧ byteLen u + byteLen x = n := by
  obtain ⟨w, y, hw, rfl⟩ := h
  rcases List.append_eq_append_iff.1 hw with ⟨x, rfl, rfl⟩ | ⟨x, rfl, rfl⟩
  · exact ⟨x, y, rfl, (byteLen_append u x).symm⟩
  · rw [byteLen_append] at hle
    obtain rfl : x = [] := byteLen_eq_zero.1 (by omega)
    exact ⟨[], v, rfl, by simp⟩

/-- A boundary of a text up to the end of its front part is one of that part. -/
theorem exists_split_left (h : IsBoundary (u ++ v) n) (hle : n ≤ byteLen u) :
    ∃ x y, u = x ++ y ∧ byteLen x = n := by
  obtain ⟨w, y, hw, rfl⟩ := h
  rcases List.append_eq_append_iff.1 hw with ⟨x, rfl, rfl⟩ | ⟨x, rfl, rfl⟩
  · rw [byteLen_append] at hle
    obtain rfl : x = [] := byteLen_eq_zero.1 (by omega)
    exact ⟨u, [], by simp, by simp⟩
  · exact ⟨w, x, rfl, rfl⟩

/-- A boundary of a text, brought to a line of it, cuts the line in two. -/
theorem exists_split_line {before line after : Text} (h : IsBoundary (before ++ line ++ after) n) :
    ∃ x y, line = x ++ y ∧
      byteLen before + byteLen x = max (byteLen before) (min n (byteLen before + byteLen line)) := by
  by_cases hleft : n ≤ byteLen before
  · exact ⟨[], line, rfl, by rw [byteLen_nil]; omega⟩
  by_cases hright : byteLen before + byteLen line ≤ n
  · exact ⟨line, [], by simp, by omega⟩
  rw [List.append_assoc] at h
  obtain ⟨x, y, hxy, hx⟩ := exists_split_right h (by omega)
  obtain ⟨x', y', rfl, hx'⟩ := exists_split_left ⟨x, y, hxy, rfl⟩ (by omega)
  exact ⟨x', y', rfl, by omega⟩

end Text

/-! ## The row of a line -/

namespace TextRange

/-- The last byte of a range; of an empty one, the place where it is. -/
def last (r : TextRange) : Nat := if r.start < r.stop then r.stop - 1 else r.start

theorem start_le_last (r : TextRange) : r.start ≤ r.last := by
  unfold last
  split
  · omega
  · exact Nat.le_refl _

theorem last_le_stop {r : TextRange} (h : r.start ≤ r.stop) : r.last ≤ r.stop := by
  unfold last
  split
  · omega
  · exact h

end TextRange

/-- A range cuts a line that starts at `start` in three: the characters before it, those in it and
    those behind it. -/
structure Row.Cut (row : Row) (r : TextRange) (start : Nat) (front middle back : Text) : Prop where
  line_eq : row.line = front ++ middle ++ back
  front_end : start + byteLen front = max start (min r.start (start + byteLen row.line))
  middle_end : start + byteLen (front ++ middle) = max start (min r.stop (start + byteLen row.line))
  column_eq : row.column = (front.map Snippet.width).sum
  carets_eq : row.carets = max 1 (middle.map Snippet.width).sum

/-- The row has the number and the text of line `k`, counted from 0, and is cut by the range. -/
def Row.IsOf (t : Text) (r : TextRange) (k : Nat) (row : Row) : Prop :=
  row.number = k + 1 ∧ ∃ before after front middle back, t = before ++ row.line ++ after ∧
    IsLine before row.line after ∧ before.count '\n' = k ∧ row.Cut r (byteLen before) front middle back

namespace Snippet

variable {t before line after : Text} {r : TextRange} {row : Row}

theorem isBoundary_fit_start (t : Text) (r : TextRange) : Text.IsBoundary t (fit t r).start :=
  Text.isBoundary_floorBoundary t r.start

theorem isBoundary_fit_stop (t : Text) (r : TextRange) : Text.IsBoundary t (fit t r).stop := by
  rcases Nat.le_total (Text.floorBoundary t r.start) (Text.floorBoundary t r.stop) with hle | hle
  · rw [show (fit t r).stop = _ from Nat.max_eq_right hle]
    exact Text.isBoundary_floorBoundary t r.stop
  · rw [show (fit t r).stop = _ from Nat.max_eq_left hle]
    exact Text.isBoundary_floorBoundary t r.start

theorem isOf_of_row? (hl : IsLine before line after) (hs : Text.IsBoundary (before ++ line ++ after) r.start)
    (he : Text.IsBoundary (before ++ line ++ after) r.stop) (hle : r.start ≤ r.stop)
    (hrow : row? (LineTable.ofText (before ++ line ++ after)) r (before.count '\n') = some row) :
    row.IsOf (before ++ line ++ after) r (before.count '\n') := by
  obtain ⟨upto, back, hline, hupto⟩ := Text.exists_split_line he
  obtain ⟨front, rest, hline', hfront⟩ := Text.exists_split_line hs
  -- the range does not end before it starts, so what is before it is part of what is up to its end
  obtain ⟨front', middle, rfl, hlen⟩ := Text.exists_split_left (u := upto) (v := back) ⟨front, rest, hline ▸ hline', rfl⟩
    (by omega)
  obtain ⟨rfl, -⟩ := Text.append_inj_byteLen (hline'.symm.trans (hline.trans (List.append_assoc _ _ _))) hlen.symm
  have hcolumn : columnOf line (byteLen front) = (front.map width).sum := by
    rw [hline', columnOf_append]
  have hend : columnOf line (byteLen (front ++ middle)) = (front.map width).sum + (middle.map width).sum := by
    rw [hline, columnOf_append, List.map_append, List.sum_append]
  have hbounds := LineTable.bounds?_of_isLine hl
  have hslice := LineTable.slice?_of_isLine before line after
  have hclamp := Nat.le_add_right (byteLen before) (byteLen line)
  simp only [row?, bind, pure, hbounds, LineTable.ofText_text, hslice, clamp?_of_le hclamp, ← hfront, ← hupto,
    sub?_of_le (Nat.le_add_right (byteLen before) _), Nat.add_sub_cancel_left, Option.bind_some, Option.some.injEq,
    hcolumn, hend] at hrow
  subst hrow
  exact ⟨rfl, before, after, front, middle, back, rfl, hl, rfl, hline, hfront, hupto, rfl, rfl⟩

/-- A range between boundaries, its stop not before its start, is left as it is. -/
theorem fit_eq_self (hle : r.start ≤ r.stop) (hs : Text.IsBoundary t r.start) (he : Text.IsBoundary t r.stop) :
    fit t r = r := by
  have hstart := Nat.le_antisymm (Text.floorBoundary_le t r.start) (Text.le_floorBoundary hs (Nat.le_refl _))
  have hstop := Nat.le_antisymm (Text.floorBoundary_le t r.stop) (Text.le_floorBoundary he (Nat.le_refl _))
  rw [fit, hstart, hstop, Nat.max_eq_right hle]

/-! ## The rows of a range -/

theorem forall₂_of_mapM {α β : Type} {f : α → Option β} {l : List α} {bs : List β} (h : l.mapM f = some bs) :
    List.Forall₂ (fun a b => f a = some b) l bs := by
  induction l generalizing bs with
  | nil =>
    obtain rfl := Option.some.inj h
    exact .nil
  | cons a l ih =>
    simp only [List.mapM_cons, bind, pure, Option.bind_eq_some_iff, Option.some.injEq] at h
    obtain ⟨b, hb, bs', hbs, rfl⟩ := h
    exact .cons hb (ih hbs)

/-- The lines of a text from that of the start of a range to that of its last byte. -/
def linesUnder (t : Text) (r : TextRange) : List Nat :=
  List.range' (Text.feedsBefore t r.start) (Text.feedsBefore t r.last + 1 - Text.feedsBefore t r.start)

theorem linesOf_fit (t : Text) (r : TextRange) : linesOf (LineTable.ofText t) (fit t r) = linesUnder t (fit t r) := by
  have hle := fit_start_le_stop t r
  have hstop := (isBoundary_fit_stop t r).le_byteLen
  have hlast : (if (fit t r).start < (fit t r).stop then (fit t r).stop - 1 else (fit t r).stop) = (fit t r).last := by
    unfold TextRange.last
    split
    · rfl
    · omega
  have hmono := Text.feedsBefore_mono t (fit t r).start_le_last
  have hlt := TextRange.last_le_stop hle
  rw [linesOf, hlast, LineTable.lineAt_eq_feedsBefore (by omega), LineTable.lineAt_eq_feedsBefore (by omega),
    Nat.max_eq_right hmono]
  rfl

/-- A snippet has one row for each line from that of the start of its range to that of the last byte,
    in order. -/
theorem forall₂_rows (t : Text) (r : TextRange) :
    List.Forall₂ (Row.IsOf t (fit t r)) (linesUnder t (fit t r)) (of t r).rows := by
  obtain ⟨start, stop, text, -, -, hbounds, hslice, -⟩ := LineTable.exists_cut (LineTable.lineAt_lt t (fit t r).start)
  obtain ⟨-, -, hrows⟩ := of_eq_of_bounds hbounds hslice
  have hlt : ∀ k ∈ linesUnder t (fit t r), k ≤ t.count '\n' := by
    intro k hk
    rw [← linesOf_fit] at hk
    have hsize := lt_of_mem_linesOf hk
    rw [LineTable.ofText_starts, LineTable.size_startsOnto] at hsize
    have hone : #[0].size = 1 := rfl
    omega
  rw [linesOf_fit] at hrows
  refine (List.forall₂_and_left _ _).2 ⟨hlt, forall₂_of_mapM hrows⟩ |>.imp ?_
  intro k row hk
  obtain ⟨before, line, after, rfl, hl, rfl⟩ := Text.exists_isLine_of_le_count hk.1
  exact isOf_of_row? hl (isBoundary_fit_start _ r) (isBoundary_fit_stop _ r) (fit_start_le_stop _ r) hk.2

theorem map_number_rows (t : Text) (r : TextRange) :
    (of t r).rows.map Row.number = (linesUnder t (fit t r)).map (· + 1) := by
  have hnumbers : List.Forall₂ (· = ·) ((linesUnder t (fit t r)).map (· + 1)) ((of t r).rows.map Row.number) := by
    rw [List.forall₂_map_left_iff, List.forall₂_map_right_iff]
    exact (forall₂_rows t r).imp fun k row hrow => hrow.1.symm
  rw [List.forall₂_eq_eq_eq] at hnumbers
  exact hnumbers.symm

/-- The gutter is as wide as the number of the last line. -/
theorem gutter_of (t : Text) (r : TextRange) :
    (of t r).gutter = (Text.decimal (Text.feedsBefore t (fit t r).last + 1)).length := by
  have hle := Text.feedsBefore_mono t (fit t r).start_le_last
  have hlast : (of t r).rows.getLast?.map Row.number = some (Text.feedsBefore t (fit t r).last + 1) := by
    rw [← List.getLast?_map, map_number_rows, List.getLast?_map, linesUnder, List.getLast?_range', if_neg (by omega),
      Option.map_some]
    exact congrArg some (by omega)
  obtain ⟨row, hrow, hnumber⟩ := Option.map_eq_some_iff.1 hlast
  rw [gutter, hrow, ← hnumber]

/-- The row of a line, given the piece of the line that the range covers. -/
theorem eq_of_isOf {front middle back : Text} (hl : IsLine before (front ++ middle ++ back) after)
    (hstart : r.start = byteLen before + byteLen front) (hstop : r.stop = byteLen before + byteLen (front ++ middle))
    (hrow : row.IsOf (before ++ (front ++ middle ++ back) ++ after) r (before.count '\n')) :
    row =
      ⟨before.count '\n' + 1, front ++ middle ++ back, (front.map width).sum, max 1 (middle.map width).sum⟩ := by
  obtain ⟨hnumber, before', after', front', middle', back', ht, hl', hcount, hcut⟩ := hrow
  obtain ⟨rfl, hline⟩ := hl.unique hl' ht hcount.symm
  have hfront := hcut.front_end
  have hmiddle := hcut.middle_end
  have hlen := Text.byteLen_append (front ++ middle) back
  have hlen' := Text.byteLen_append front middle
  rw [← hline] at hfront hmiddle
  obtain ⟨hupto, -⟩ := Text.append_inj_byteLen (hline.trans hcut.line_eq) (by omega)
  obtain ⟨rfl, rfl⟩ := Text.append_inj_byteLen hupto (by omega)
  cases row
  rw [Row.mk.injEq]
  exact ⟨hnumber, hline.symm, hcut.column_eq, hcut.carets_eq⟩

/-- The snippet of a range that covers a piece of one line. -/
theorem of_isLine {front middle back : Text} (hl : IsLine before (front ++ middle ++ back) after)
    (hstart : r.start = byteLen before + byteLen front) (hstop : r.stop = byteLen before + byteLen (front ++ middle)) :
    of (before ++ (front ++ middle ++ back) ++ after) r =
      ⟨before.count '\n' + 1, (front.map width).sum + 1,
        [⟨before.count '\n' + 1, front ++ middle ++ back, (front.map width).sum, max 1 (middle.map width).sum⟩]⟩ := by
  have hlen := Text.byteLen_append (front ++ middle) back
  have hlen' := Text.byteLen_append front middle
  have hle : r.start ≤ r.stop := by omega
  have hfit : fit (before ++ (front ++ middle ++ back) ++ after) r = r :=
    fit_eq_self hle ⟨before ++ front, middle ++ back ++ after, by simp, by rw [hstart, Text.byteLen_append]⟩
      ⟨before ++ (front ++ middle), back ++ after, by simp, by rw [hstop, Text.byteLen_append]⟩
  have hplace := place_of_isLine (r := r) (List.append_assoc front middle back ▸ hl)
    (by rw [← List.append_assoc front, hfit, hstart])
  rw [← List.append_assoc front] at hplace
  have hlast := r.start_le_last
  have hlast' := TextRange.last_le_stop hle
  have hrows := forall₂_rows (before ++ (front ++ middle ++ back) ++ after) r
  rw [hfit, linesUnder, Text.feedsBefore_of_isLine (n := r.start) hl (by omega) (by omega),
    Text.feedsBefore_of_isLine (n := r.last) hl (by omega) (by omega), Nat.add_sub_cancel_left, List.range'_one] at hrows
  obtain ⟨row, rows, hrow, hrest, heq⟩ := List.forall₂_cons_left_iff.1 hrows
  rw [List.forall₂_nil_left_iff.1 hrest, eq_of_isOf hl hstart hstop hrow] at heq
  rw [← heq, ← hplace.1, ← hplace.2]

end Snippet

end Polyglot
