/-
  Polyglot.Proofs.Diagnostic.Partition — the table parts a text into its lines.

  The lines that the table cuts out, in order, are the pieces of the text between its line
  feeds (`lineTexts?_ofText`). The proof goes through the text line by line
  (`Text.lineInduction`), with what has been passed so far as the front part.

  A position belongs to one line. A search of the starts may answer that the position is a
  start or say between which starts it would have to be put; from every answer that is
  right the same line follows, the one that halving comes to (`lineOf_eq_lineAt`).
  `partitions_ofText` puts all of it together.
-/

import Mathlib.Data.Nat.Basic
import Mathlib.Order.Monotone.Defs
import Polyglot.Proofs.Diagnostic.Lines

namespace Polyglot

namespace Text

/-- A text is its last line, or a line with a line feed and a text behind it. -/
theorem lineInduction {motive : Text → Prop} (last : ∀ line, '\n' ∉ line → motive line)
    (feed : ∀ line rest, '\n' ∉ line → motive rest → motive (line ++ '\n' :: rest)) (t : Text) : motive t := by
  induction h : t.count '\n' generalizing t with
  | zero => exact last t (List.count_eq_zero.1 h)
  | succ k ih =>
    obtain ⟨line, after, rfl, hline, hafter⟩ := exists_upTo_feed t
    rw [List.count_append, List.count_eq_zero_of_not_mem hline] at h
    rcases hafter with rfl | ⟨rest, rfl⟩
    · simp at h
    · rw [List.count_cons_self] at h
      exact feed line rest hline (ih rest (by omega))

theorem feed_not_mem_of_mem_splitOn (t : Text) : ∀ line ∈ t.splitOn '\n', '\n' ∉ line := by
  induction t using lineInduction with
  | last line hline =>
    rw [List.splitOn_eq_singleton hline]
    intro line' hmem
    rwa [List.mem_singleton.1 hmem]
  | feed line rest hline ih =>
    rw [List.splitOn_append_cons_self_of_not_mem hline]
    intro line' hmem
    rcases List.mem_cons.1 hmem with rfl | hmem
    · exact hline
    · exact ih line' hmem

end Text

namespace LineTable

open Text (IsLine byteLen)

variable {t before line after rest : Text} {pos pos' : Nat} {answer : Except Nat Nat}

/-! ## The lines of the table -/

def lineText? (table : LineTable) (line : Nat) : Option Text := do
  let (start, stop) ← table.bounds? line
  Text.slice? table.text start stop

/-- The lines of the table, in order; `none` if one of them is no slice of the text. -/
def lineTexts? (table : LineTable) : Option (List Text) := (List.range table.starts.size).mapM table.lineText?

theorem lineText?_of_isLine (h : IsLine before line after) :
    (ofText (before ++ line ++ after)).lineText? (before.count '\n') = some line := by
  rw [lineText?, bounds?_of_isLine h]
  exact slice?_of_isLine before line after

/-- From a line on, the lines of the table are what the rest of the text splits into. -/
theorem mapM_lineText? (h : before = [] ∨ ∃ u, before = u ++ ['\n']) :
    (List.range' (before.count '\n') (rest.count '\n' + 1)).mapM (ofText (before ++ rest)).lineText? =
      some (rest.splitOn '\n') := by
  induction rest using Text.lineInduction generalizing before with
  | last line hline =>
    have hlast : IsLine before line [] := ⟨hline, h, Or.inl rfl⟩
    have htext := lineText?_of_isLine hlast
    rw [List.append_nil] at htext
    rw [List.count_eq_zero_of_not_mem hline, List.splitOn_eq_singleton hline]
    simp [htext]
  | feed line rest hline ih =>
    have hfeed : IsLine before line ('\n' :: rest) := ⟨hline, h, Or.inr ⟨rest, rfl⟩⟩
    have htext := lineText?_of_isLine hfeed
    have hrest := @ih (before ++ line ++ ['\n']) (Or.inr ⟨before ++ line, rfl⟩)
    have hnone := List.count_eq_zero_of_not_mem hline
    simp only [List.count_append, hnone, List.count_singleton_self, List.append_assoc,
      List.singleton_append] at htext hrest
    rw [List.count_append, hnone, List.count_cons_self, Nat.zero_add, List.range'_succ, List.mapM_cons,
      List.splitOn_append_cons_self_of_not_mem hline, htext, hrest]
    rfl

theorem lineTexts?_ofText (t : Text) : (ofText t).lineTexts? = some (t.splitOn '\n') := by
  have h := @mapM_lineText? [] t (Or.inl rfl)
  rw [lineTexts?, List.range_eq_range', ofText_starts, size_startsOnto, Nat.add_comm]
  exact h

/-! ## The line of a position -/

/-- What a search of ascending starts answers for a position: where it stands, or else where it would
    have to be put. -/
inductive Located (starts : Array Nat) (pos : Nat) : Except Nat Nat → Prop
  | here {i : Nat} : starts[i]? = some pos → Located starts pos (.ok i)
  | between {i : Nat} : i ≤ starts.size → (∀ j s, j < i → starts[j]? = some s → s < pos) →
      (∀ j s, i ≤ j → starts[j]? = some s → pos < s) → Located starts pos (.error i)

/-- The line that follows from an answer. -/
def lineOf : Except Nat Nat → Nat
  | .ok line => line
  | .error 0 => 0
  | .error (next + 1) => next

theorem lineOf_eq_lineAt (h : Located (ofText t).starts (min pos (byteLen t)) answer) :
    lineOf answer = (ofText t).lineAt pos := by
  symm
  rw [lineAt_eq_iff]
  cases h with
  | @here i hi =>
    refine ⟨_, hi, Nat.le_refl _, fun next hnext => ?_⟩
    exact lt_of_pairwise (pairwise_starts t) (Nat.lt_succ_self i) hi hnext
  | @between i hsize hbelow habove =>
    cases i with
    | zero =>
      -- the first line starts at 0, so nothing is put before it
      have hfirst := habove 0 0 (Nat.le_refl 0) (getElem?_starts_zero t)
      exact absurd hfirst (Nat.not_lt_zero _)
    | succ i =>
      have hi : (ofText t).starts[i]? = some (ofText t).starts[i] := Array.getElem?_eq_getElem hsize
      exact ⟨_, hi, Nat.le_of_lt (hbelow i _ (Nat.lt_succ_self i) hi), fun next => habove (i + 1) next (Nat.le_refl _)⟩

theorem exists_located (t : Text) (pos : Nat) : ∃ answer, Located (ofText t).starts (min pos (byteLen t)) answer := by
  obtain ⟨hbelow, habove⟩ := startedBy_spec t pos
  by_cases hstart : ∃ i : Nat, (ofText t).starts[i]? = some (min pos (byteLen t))
  · obtain ⟨i, hi⟩ := hstart
    exact ⟨.ok i, .here hi⟩
  · refine ⟨.error ((ofText t).startedBy pos), .between (startedBy_le _ pos) (fun i s hi hs => ?_) habove⟩
    refine Nat.lt_of_le_of_ne (hbelow i s hi hs) fun heq => hstart ⟨i, ?_⟩
    rw [hs, heq]

/-- By a later position no fewer lines have started. -/
theorem startedBy_mono (h : pos ≤ pos') : (ofText t).startedBy pos ≤ (ofText t).startedBy pos' := by
  by_contra hlt
  have hsize := startedBy_le (ofText t) pos
  have hnext : (ofText t).starts[(ofText t).startedBy pos']? = some (ofText t).starts[(ofText t).startedBy pos'] :=
    Array.getElem?_eq_getElem (by omega)
  have hle := (startedBy_spec t pos).1 _ _ (by omega) hnext
  have hgt := (startedBy_spec t pos').2 _ _ (Nat.le_refl _) hnext
  omega

/-! ## The table as a whole -/

/-- The table starts at 0 and ascends, its lines hold no line feed and joined by line feeds are the
    text, and every position belongs to the one line that has started by then while the next has not,
    which is the line that a search of the starts leads to. A later position is on no earlier line. -/
structure Partitions (table : LineTable) (t : Text) : Prop where
  first : table.starts[0]? = some 0
  ascending : table.starts.toList.Pairwise (· < ·)
  joined : ∃ lines, table.lineTexts? = some lines ∧ (∀ line ∈ lines, '\n' ∉ line) ∧ ['\n'].intercalate lines = t
  lineAt_iff : ∀ pos line, table.lineAt pos = line ↔
    ∃ start, table.starts[line]? = some start ∧ start ≤ min pos (byteLen t) ∧
      ∀ next, table.starts[line + 1]? = some next → min pos (byteLen t) < next
  located : ∀ pos, (∃ answer, Located table.starts (min pos (byteLen t)) answer) ∧
    ∀ answer, Located table.starts (min pos (byteLen t)) answer → lineOf answer = table.lineAt pos
  monotone : Monotone table.lineAt

theorem partitions_ofText (t : Text) : (ofText t).Partitions t where
  first := getElem?_starts_zero t
  ascending := pairwise_starts t
  joined := ⟨t.splitOn '\n', lineTexts?_ofText t, Text.feed_not_mem_of_mem_splitOn t, List.intercalate_splitOn '\n'⟩
  lineAt_iff _ _ := lineAt_eq_iff
  located pos := ⟨exists_located t pos, fun _ => lineOf_eq_lineAt⟩
  monotone _ _ h := Nat.sub_le_sub_right (startedBy_mono h) 1

end LineTable

end Polyglot
