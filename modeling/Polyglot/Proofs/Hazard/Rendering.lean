/-
  Polyglot.Proofs.Hazard.Rendering — a hazard as it is shown.

  A run found by a scan is a piece of one line (`exists_line_of_mem_scan`): its characters
  take one byte each and none of them ends a line. So the range of its diagnostic lies on that
  line, and the rendering shows this line only, with a sign for each character of the run and a
  caret below each of these signs (`render_hazard`).
-/

import Polyglot.Proofs.Diagnostic.Carets
import Polyglot.Proofs.Hazard.Maximal

namespace Polyglot

open Text (IsLine byteLen display)

namespace HazardKind

/-- The sign that is shown for the character. -/
def glyph : HazardKind → Char
  | carriageReturn => '\u240D'
  | nul => '\u2400'

theorem utf8Size_char (kind : HazardKind) : kind.char.utf8Size = 1 := by
  cases kind <;> rfl

theorem char_ne_feed (kind : HazardKind) : kind.char ≠ '\n' := by
  cases kind <;> decide

theorem displayChar_char (kind : HazardKind) : Text.displayChar kind.char = [kind.glyph] := by
  cases kind <;> rfl

theorem byteLen_replicate_char (kind : HazardKind) (n : Nat) : byteLen (List.replicate n kind.char) = n := by
  induction n with
  | zero => rfl
  | succ n ih =>
    rw [List.replicate_succ, Text.byteLen_cons, ih, utf8Size_char, Nat.add_comm]

theorem display_replicate_char (kind : HazardKind) (n : Nat) :
    display (List.replicate n kind.char) = List.replicate n kind.glyph := by
  rw [display, List.flatMap_replicate, displayChar_char, List.flatten_replicate_singleton]

end HazardKind

/-- A line has `n` carets, and what stands directly above each of them is one sign. -/
structure MarkedLine.Points (m : MarkedLine) (n : Nat) (sign : Char) : Prop where
  count_eq : m.underline.count '^' = n
  above : ∀ i : Nat, m.underline[i]? = some '^' → m.source[i]? = some sign

theorem Text.getElem?_of_run {u v x y : Text} {c d : Char} {n i : Nat} (hlen : u.length = x.length) (hu : c ∉ u)
    (hv : c ∉ v) (h : (u ++ List.replicate n c ++ v)[i]? = some c) : (x ++ List.replicate n d ++ y)[i]? = some d := by
  rw [List.append_assoc, List.getElem?_append] at h ⊢
  split at h
  · exact absurd (List.mem_of_getElem? h) hu
  · rename_i hge
    rw [← hlen, if_neg hge]
    rw [List.getElem?_append, List.length_replicate] at h ⊢
    split at h
    · rename_i hlt
      rw [if_pos hlt, List.getElem?_replicate_of_lt hlt]
    · exact absurd (List.mem_of_getElem? h) hv

/-- A run of one sign behind `front`, with a caret below each sign and no other. -/
theorem MarkedLine.points_of_run {m : MarkedLine} {front back : Text} {sign : Char}
    (hshown : m.shown = front ++ List.replicate m.carets sign ++ back) (hcolumn : m.column = front.length)
    (hlabel : '^' ∉ m.label) : m.Points m.carets sign := by
  have hunderline : m.underline = (List.replicate m.number.length ' ' ++ " | ".toList ++ List.replicate m.column ' ') ++
      List.replicate m.carets '^' ++ m.label := by
    simp only [underline, pointer, List.append_assoc]
  have hsource : m.source = (m.number ++ " | ".toList ++ front) ++ List.replicate m.carets sign ++ back := by
    simp only [source, hshown, List.append_assoc]
  have hblank : '^' ∉ List.replicate m.number.length ' ' ++ " | ".toList ++ List.replicate m.column ' ' := by
    simp [List.mem_replicate]
  constructor
  · rw [hunderline, List.count_append, List.count_append, List.count_eq_zero_of_not_mem hblank,
      List.count_eq_zero_of_not_mem hlabel, List.count_replicate_self, Nat.zero_add, Nat.add_zero]
  · intro i hi
    rw [hunderline] at hi
    rw [hsource]
    exact Text.getElem?_of_run (by simp [hcolumn]) hblank hlabel hi

namespace Hazard

variable {t : Text} {h : Hazard}

/-- A text in which one character of one byte stands at every position of a range has the run there. -/
theorem exists_run_of_at {kind : HazardKind} {start n : Nat} (hn : 0 < n)
    (hat : ∀ i, start ≤ i → i < start + n → t.At i kind.char) :
    ∃ u v, t = u ++ List.replicate n kind.char ++ v ∧ byteLen u = start := by
  induction n with
  | zero => exact absurd hn (Nat.lt_irrefl 0)
  | succ n ih =>
    obtain ⟨x, y, hx, hlen⟩ := hat (start + n) (Nat.le_add_right _ _) (by omega)
    by_cases hzero : n = 0
    · subst hzero
      exact ⟨x, y, by rw [hx]; simp, hlen⟩
    · obtain ⟨u, v, hu, hstart⟩ := ih (Nat.pos_of_ne_zero hzero) fun i hle hlt => hat i hle (by omega)
      have hsame : byteLen (u ++ List.replicate n kind.char) = byteLen x := by
        rw [Text.byteLen_append, kind.byteLen_replicate_char, hstart, hlen]
      obtain ⟨-, rfl⟩ := Text.append_inj_byteLen (hu.symm.trans hx) hsame
      refine ⟨u, y, ?_, hstart⟩
      rw [hu, List.replicate_succ', List.append_assoc, List.append_assoc, List.append_assoc]
      rfl

/-- A run found by a scan is a piece of one line. -/
theorem exists_line_of_mem_scan (hh : h ∈ scan t) : ∃ before front back after,
    t = before ++ (front ++ List.replicate h.len h.kind.char ++ back) ++ after ∧
      IsLine before (front ++ List.replicate h.len h.kind.char ++ back) after ∧
      byteLen before + byteLen front = h.start := by
  have hlt := (within_scan hh).start_lt_stop
  have hat : ∀ i, h.start ≤ i → i < h.start + h.len → t.At i h.kind.char := by
    intro i hle hi
    rw [len] at hi
    exact (runs_scan t).at_of_mem h hh i hle (by omega)
  obtain ⟨u, v, rfl, hstart⟩ := exists_run_of_at (by rw [len]; omega) hat
  obtain ⟨before, front, back, after, rfl, rfl, hl⟩ := Text.exists_isLine u v
  refine ⟨before, front, back, after, by simp, ⟨?_, hl.feed_before, hl.feed_after⟩, by rw [← hstart, Text.byteLen_append]⟩
  have hfeed := hl.feed_not_mem
  simp only [List.mem_append, not_or] at hfeed
  simp [hfeed.1, hfeed.2, h.kind.char_ne_feed.symm]

/-! ## The rendering -/

/-- Behind `front` and before `back` on line `k`, counted from 0, the run as it is to be marked: a sign
    for each of its characters, and a caret below each sign. -/
def marked (h : Hazard) (k : Nat) (front back : Text) : MarkedLine where
  number := Text.decimal (k + 1)
  shown := display front ++ List.replicate h.len h.kind.glyph ++ display back
  column := (display front).length
  carets := h.len
  label := ' ' :: h.kind.message

theorem snippet_of_isLine {before front back after : Text} {r : TextRange}
    (hl : IsLine before (front ++ List.replicate h.len h.kind.char ++ back) after) (hlen : 0 < h.len)
    (hstart : r.start = byteLen before + byteLen front) (hstop : r.stop = r.start + h.len) :
    Snippet.of (before ++ (front ++ List.replicate h.len h.kind.char ++ back) ++ after) r =
      ⟨before.count '\n' + 1, (display front).length + 1,
        [⟨before.count '\n' + 1, front ++ List.replicate h.len h.kind.char ++ back, (display front).length, h.len⟩]⟩ := by
  have hrun : byteLen (front ++ List.replicate h.len h.kind.char) = byteLen front + h.len := by
    rw [Text.byteLen_append, h.kind.byteLen_replicate_char]
  rw [Snippet.of_isLine hl hstart (by omega), ← Text.length_display, ← Text.length_display,
    h.kind.display_replicate_char, List.length_replicate, Nat.max_eq_right hlen]

/-- The only row of a run, marked with its message. -/
theorem markedLines_eq (h : Hazard) (k column : Nat) (front back : Text) :
    Snippet.markedLines ⟨k + 1, column,
      [⟨k + 1, front ++ List.replicate h.len h.kind.char ++ back, (display front).length, h.len⟩]⟩ h.kind.message =
      [h.marked k front back] := by
  have hmessage : h.kind.message.isEmpty = false := by cases h.kind <;> rfl
  simp [Snippet.markedLines, Snippet.gutter, Snippet.markRows, Row.marked, marked, List.leftpad, hmessage,
    Text.display_append, h.kind.display_replicate_char]

theorem marked_points (h : Hazard) (k : Nat) (front back : Text) :
    (h.marked k front back).Points h.len h.kind.glyph := by
  have hlabel : '^' ∉ ' ' :: h.kind.message := by cases h.kind <;> decide
  exact MarkedLine.points_of_run rfl rfl hlabel

variable {sources : Sources} {file : FileId}

/-- A hazard is shown with the one line that it is on. Its carets are as many as its bytes, and above
    them stand as many signs of its kind; the place is that of the first. -/
theorem render_hazard (htext : sources.text? file = some t) (hlimit : byteLen t ≤ TextRange.limit) (hh : h ∈ scan t) :
    ∃ before front back after, t = before ++ (front ++ List.replicate h.len h.kind.char ++ back) ++ after ∧
      IsLine before (front ++ List.replicate h.len h.kind.char ++ back) after ∧
      byteLen before + byteLen front = h.start ∧
      (h.toDiagnostic file).render sources = ((h.toDiagnostic file).headline ::
        (" --> ".toList ++ sources.nameOf file ++ ':' :: Text.decimal (before.count '\n' + 1) ++
          ':' :: Text.decimal ((display front).length + 1)) ::
        "  |".toList :: (h.marked (before.count '\n') front back).rows ++
          ["= note: ".toList ++ h.kind.advice]).flatMap (· ++ ['\n']) ∧
      (h.marked (before.count '\n') front back).Points (h.stop - h.start) h.kind.glyph := by
  have hw := within_scan hh
  have hlt := hw.start_lt_stop
  have hstop := Nat.le_trans hw.stop_le hlimit
  have hrange : TextRange.ofOffsets h.start h.stop = ⟨h.start, h.stop⟩ := by
    rw [TextRange.ofOffsets, Nat.min_eq_left hstop, Nat.min_eq_left (by omega)]
  obtain ⟨before, front, back, after, rfl, hl, hstart⟩ := exists_line_of_mem_scan hh
  refine ⟨before, front, back, after, rfl, hl, hstart, ?_, marked_points h _ front back⟩
  have hsnippet := snippet_of_isLine (r := ⟨h.start, h.stop⟩) hl (Nat.sub_pos_of_lt hlt) hstart.symm
    (by simp only [len]; omega)
  have hplace : (h.toDiagnostic file).place = .span ⟨file, ⟨h.start, h.stop⟩⟩ := by
    rw [← hrange]
    rfl
  have hmarked : Snippet.markedLines _ (h.toDiagnostic file).message = _ :=
    markedLines_eq h (before.count '\n') ((display front).length + 1) front back
  rw [Diagnostic.render_eq_rows hplace htext, hsnippet, hmarked, List.flatMap_singleton]
  rfl

def brokenText : Text := "x = 1\n\té\r\r\x00b\n".toList

def brokenSources : Sources := .ofList [("m.py".toList, some brokenText)]

/-- The NUL behind the carriage returns. -/
def brokenNul : Hazard := ⟨.nul, 11, 12⟩

theorem render_hazard_nul :
    brokenSources.text? 0 = some brokenText ∧ byteLen brokenText ≤ TextRange.limit ∧ brokenNul ∈ scan brokenText ∧
      ∃ before front back, 11 = byteLen before + byteLen front ∧
        (brokenNul.toDiagnostic 0).render brokenSources = ((brokenNul.toDiagnostic 0).headline ::
          (" --> ".toList ++ "m.py".toList ++ ':' :: Text.decimal (before.count '\n' + 1) ++
            ':' :: Text.decimal ((display front).length + 1)) ::
          "  |".toList :: (brokenNul.marked (before.count '\n') front back).rows ++
            ["= note: ".toList ++ HazardKind.nul.advice]).flatMap (· ++ ['\n']) ∧
        (brokenNul.marked (before.count '\n') front back).Points 1 '\u2400' := by
  have htext : brokenSources.text? 0 = some brokenText := rfl
  have hname : brokenSources.nameOf 0 = "m.py".toList := rfl
  have hlimit : byteLen brokenText ≤ TextRange.limit := by decide
  have hh : brokenNul ∈ scan brokenText := by decide
  refine ⟨htext, hlimit, hh, ?_⟩
  obtain ⟨before, front, back, after, -, -, hstart, hrender, hpoints⟩ := render_hazard htext hlimit hh
  rw [hname] at hrender
  exact ⟨before, front, back, hstart.symm, hrender, hpoints⟩

example : (brokenNul.toDiagnostic 0).placeLines brokenSources =
    [" --> m.py:2:6", "  |", "2 |   é␍␍␀b", "  |      ^ NUL character will not be escaped"].map String.toList := by
  decide +kernel

end Hazard

end Polyglot
