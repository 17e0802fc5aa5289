/-
  Polyglot.Proofs.Diagnostic.Lines — the table of lines against the text it is made from.

  `Text.IsLine` says what a line is without a table, and every position of a text is in a
  line (`Text.exists_isLine`). The number of a line is how many line feeds stand before it:
  there the table has the line's bounds (`bounds?_of_isLine`), and there the search comes
  for every position from its start up to the line feed that ends it (`lineAt_of_isLine`).

  Behind the search: the starts ascend (`pairwise_starts`), halving keeps the starts that
  are not above the position below those that are (`search_spec`), and so the line it finds
  is the only one that has started by then while the next has not (`lineAt_eq_iff`).
-/

import Mathlib.Data.List.Basic
import Polyglot.Diagnostic.LineTable

namespace Polyglot

namespace Text

/-- A line with the text on both sides of it: no line feed stands in it, one stands before it unless
    it is the first, and one after it unless it is the last. -/
structure IsLine (before line after : Text) : Prop where
  feed_not_mem : '\n' ∉ line
  feed_before : before = [] ∨ ∃ u, before = u ++ ['\n']
  feed_after : after = [] ∨ ∃ v, after = '\n' :: v

theorem exists_upTo_feed (t : Text) : ∃ u v, t = u ++ v ∧ '\n' ∉ u ∧ (v = [] ∨ ∃ w, v = '\n' :: w) := by
  induction t with
  | nil => exact ⟨[], [], rfl, List.not_mem_nil, Or.inl rfl⟩
  | cons c t ih =>
    by_cases hc : c = '\n'
    · exact ⟨[], c :: t, rfl, List.not_mem_nil, Or.inr ⟨t, by rw [hc]⟩⟩
    · obtain ⟨u, v, rfl, hu, hv⟩ := ih
      exact ⟨c :: u, v, rfl, List.not_mem_cons_of_ne_of_not_mem (Ne.symm hc) hu, hv⟩

theorem exists_from_feed (t : Text) : ∃ u v, t = u ++ v ∧ '\n' ∉ v ∧ (u = [] ∨ ∃ w, u = w ++ ['\n']) := by
  obtain ⟨v, u, ht, hv, hu⟩ := exists_upTo_feed t.reverse
  refine ⟨u.reverse, v.reverse, ?_, by simpa using hv, ?_⟩
  · rw [← List.reverse_append, ← ht, List.reverse_reverse]
  · rcases hu with rfl | ⟨w, rfl⟩
    · exact Or.inl rfl
    · exact Or.inr ⟨w.reverse, List.reverse_cons⟩

/-- Every place in a text is in a line. -/
theorem exists_isLine (u v : Text) :
    ∃ before front back after, u = before ++ front ∧ v = back ++ after ∧ IsLine before (front ++ back) after := by
  obtain ⟨before, front, hu, hfront, hbefore⟩ := exists_from_feed u
  obtain ⟨back, after, hv, hback, hafter⟩ := exists_upTo_feed v
  refine ⟨before, front, back, after, hu, hv, ?_, hbefore, hafter⟩
  simp [hfront, hback]

end Text

namespace LineTable

open Text (IsLine byteLen)

variable {starts : Array Nat} {pos : Nat} {t u v before line after : Text}

/-! ## The starts -/

@[simp] theorem ofText_text (t : Text) : (ofText t).text = t := rfl

@[simp] theorem ofText_size (t : Text) : (ofText t).size = byteLen t := rfl

@[simp] theorem ofText_starts (t : Text) : (ofText t).starts = startsOnto #[0] 0 t := rfl

theorem startsOnto_append :
    startsOnto starts pos (u ++ v) = startsOnto (startsOnto starts pos u) (pos + byteLen u) v := by
  induction u generalizing starts pos with
  | nil => rfl
  | cons c u ih =>
    rw [List.cons_append, startsOnto, startsOnto]
    split
    · rename_i hc
      have hs : '\n'.utf8Size = 1 := rfl
      rw [ih, hc, Text.byteLen_cons, hs, Nat.add_assoc]
    · rw [ih, Text.byteLen_cons, Nat.add_assoc]

theorem size_startsOnto : (startsOnto starts pos t).size = starts.size + t.count '\n' := by
  induction t generalizing starts pos with
  | nil => rfl
  | cons c t ih =>
    rw [startsOnto]
    split
    · rename_i hc
      rw [ih, hc, Array.size_push, List.count_cons_self]
      omega
    · rename_i hc
      rw [ih, List.count_cons_of_ne hc]

/-- What is in the table stays there. -/
theorem getElem?_startsOnto {k s : Nat} (h : starts[k]? = some s) : (startsOnto starts pos t)[k]? = some s := by
  induction t generalizing starts pos with
  | nil => exact h
  | cons c t ih =>
    rw [startsOnto]
    split
    · apply ih
      obtain ⟨hk, hget⟩ := Array.getElem?_eq_some_iff.1 h
      rw [Array.getElem?_push_lt hk, hget]
    · exact ih h

/-- Behind a line feed, and at the start of the text, a line starts. -/
theorem getElem?_starts (h : before = [] ∨ ∃ u, before = u ++ ['\n']) (rest : Text) :
    (ofText (before ++ rest)).starts[before.count '\n']? = some (byteLen before) := by
  rw [ofText_starts, startsOnto_append]
  apply getElem?_startsOnto
  rcases h with rfl | ⟨u, rfl⟩
  · rfl
  · have hsize : (u ++ ['\n']).count '\n' = (startsOnto #[0] 0 u).size := by
      rw [size_startsOnto, List.count_append, List.count_singleton_self]
      exact Nat.add_comm _ _
    have hlen : byteLen (u ++ ['\n']) = 0 + byteLen u + 1 := by
      rw [Text.byteLen_append, Nat.zero_add]
      rfl
    rw [startsOnto_append, hsize, hlen]
    exact Array.getElem?_push_size

theorem getElem?_starts_zero (t : Text) : (ofText t).starts[0]? = some 0 := getElem?_starts (Or.inl rfl) t

/-- All starts up to `pos`, in order. -/
structure Ascending (starts : Array Nat) (pos : Nat) : Prop where
  pairwise : starts.toList.Pairwise (· < ·)
  le : ∀ s ∈ starts.toList, s ≤ pos

theorem ascending_startsOnto (h : Ascending starts pos) :
    Ascending (startsOnto starts pos t) (pos + byteLen t) := by
  induction t generalizing starts pos with
  | nil => exact h
  | cons c t ih =>
    rw [startsOnto, Text.byteLen_cons, ← Nat.add_assoc]
    split
    · rename_i hc
      subst hc
      apply ih
      refine ⟨?_, fun s hs => ?_⟩
      · rw [Array.toList_push, List.pairwise_append]
        refine ⟨h.pairwise, List.pairwise_singleton _ _, fun s hs s' hs' => ?_⟩
        have hle := h.le s hs
        rw [List.mem_singleton.1 hs']
        omega
      · rw [Array.toList_push, List.mem_append, List.mem_singleton] at hs
        rcases hs with hs | rfl
        · exact Nat.le_succ_of_le (h.le s hs)
        · exact Nat.le_refl _
    · exact ih ⟨h.pairwise, fun s hs => Nat.le_trans (h.le s hs) (Nat.le_add_right _ _)⟩

theorem pairwise_starts (t : Text) : (ofText t).starts.toList.Pairwise (· < ·) :=
  (ascending_startsOnto ⟨List.pairwise_singleton _ _, by simp⟩).pairwise

theorem lt_of_pairwise (hp : starts.toList.Pairwise (· < ·)) {i j s s' : Nat} (hij : i < j) (hs : starts[i]? = some s)
    (hs' : starts[j]? = some s') : s < s' := by
  obtain ⟨hi, rfl⟩ := Array.getElem?_eq_some_iff.1 hs
  obtain ⟨hj, rfl⟩ := Array.getElem?_eq_some_iff.1 hs'
  exact List.pairwise_iff_getElem.1 hp i j hi hj hij

/-! ## The bounds of a line -/

/-- A line stops where the line feed after it stands, or with the text. -/
theorem stopOf_of_isLine (h : IsLine before line after) :
    (ofText (before ++ line ++ after)).stopOf (before.count '\n') = byteLen before + byteLen line := by
  have hcount : (before ++ line).count '\n' = before.count '\n' := by
    rw [List.count_append, List.count_eq_zero_of_not_mem h.feed_not_mem, Nat.add_zero]
  unfold stopOf
  rcases h.feed_after with rfl | ⟨v, rfl⟩
  · have hlast : (ofText (before ++ line ++ [])).starts[before.count '\n' + 1]? = none := by
      rw [ofText_starts, List.append_nil, Array.getElem?_eq_none_iff, size_startsOnto, hcount]
      exact Nat.le_of_eq (Nat.add_comm _ _)
    rw [hlast, ofText_size, List.append_nil, Text.byteLen_append]
  · have hnext := getElem?_starts (Or.inr ⟨before ++ line, rfl⟩) v
    rw [List.count_append, hcount, List.count_singleton_self, List.append_assoc, List.singleton_append] at hnext
    rw [hnext]
    show byteLen (before ++ line ++ ['\n']) - 1 = byteLen before + byteLen line
    rw [Text.byteLen_append, Text.byteLen_append]
    rfl

theorem bounds?_of_isLine (h : IsLine before line after) :
    (ofText (before ++ line ++ after)).bounds? (before.count '\n') =
      some (byteLen before, byteLen before + byteLen line) := by
  have hstart := getElem?_starts h.feed_before (line ++ after)
  rw [← List.append_assoc] at hstart
  rw [bounds?, hstart, Option.map_some, stopOf_of_isLine h, Nat.max_eq_right (Nat.le_add_right _ _)]

theorem slice?_of_isLine (before line after : Text) :
    Text.slice? (before ++ line ++ after) (byteLen before) (byteLen before + byteLen line) = some line :=
  Text.slice?_eq_some_iff.2 ⟨before, after, rfl, rfl, rfl⟩

/-! ## The search for a line -/

/-- Halving leaves the starts that are not above a position on the left and the others on the right. -/
theorem search_spec (hp : starts.toList.Pairwise (· < ·)) {low high : Nat} (h : high ≤ starts.size)
    (hlow : ∀ i s, i < low → starts[i]? = some s → s ≤ pos) (hhigh : ∀ i s, high ≤ i → starts[i]? = some s → pos < s) :
    (∀ i s, i < search starts pos low high h → starts[i]? = some s → s ≤ pos) ∧
      ∀ i s, search starts pos low high h ≤ i → starts[i]? = some s → pos < s := by
  fun_induction search starts pos low high h with
  | case1 low high h hlt hle ih =>
    apply ih ?_ hhigh
    intro i s hi hs
    have hmid : starts[(low + high) / 2]? = some starts[(low + high) / 2] := Array.getElem?_eq_getElem (by omega)
    rcases Nat.lt_or_eq_of_le (Nat.le_of_lt_succ hi) with hi | rfl
    · exact Nat.le_trans (Nat.le_of_lt (lt_of_pairwise hp hi hs hmid)) hle
    · rw [hs] at hmid
      exact Option.some.inj hmid ▸ hle
  | case2 low high h hlt hgt ih =>
    apply ih hlow
    intro i s hi hs
    have hmid : starts[(low + high) / 2]? = some starts[(low + high) / 2] := Array.getElem?_eq_getElem (by omega)
    rcases Nat.lt_or_eq_of_le hi with hi | rfl
    · exact Nat.lt_trans (Nat.lt_of_not_le hgt) (lt_of_pairwise hp hi hmid hs)
    · rw [hs] at hmid
      exact Option.some.inj hmid ▸ Nat.lt_of_not_le hgt
  | case3 low high h hlt =>
    exact ⟨hlow, fun i s hi => hhigh i s (by omega)⟩

/-- The lines that have started by a position are those that start there or before. -/
theorem startedBy_spec (t : Text) (pos : Nat) :
    (∀ i s, i < (ofText t).startedBy pos → (ofText t).starts[i]? = some s → s ≤ min pos (byteLen t)) ∧
      ∀ i s, (ofText t).startedBy pos ≤ i → (ofText t).starts[i]? = some s → min pos (byteLen t) < s := by
  apply search_spec (pairwise_starts t)
  · intro i s hi
    exact absurd hi (Nat.not_lt_zero i)
  · intro i s hi hs
    rw [Array.getElem?_eq_none hi] at hs
    cases hs

/-- The first line starts at 0, so it has started by any position. -/
theorem startedBy_pos (t : Text) (pos : Nat) : 0 < (ofText t).startedBy pos := by
  by_contra hzero
  have hlt := (startedBy_spec t pos).2 0 0 (by omega) (getElem?_starts_zero t)
  omega

/-- The line of a position is the one that starts there or before while the next does not. -/
theorem lineAt_eq_iff {k : Nat} :
    (ofText t).lineAt pos = k ↔
      ∃ s, (ofText t).starts[k]? = some s ∧ s ≤ min pos (byteLen t) ∧
        ∀ next, (ofText t).starts[k + 1]? = some next → min pos (byteLen t) < next := by
  have hpos := startedBy_pos t pos
  obtain ⟨hbelow, habove⟩ := startedBy_spec t pos
  constructor
  · intro h
    have hk : k < (ofText t).starts.size := h ▸ lineAt_lt t pos
    have hs : (ofText t).starts[k]? = some (ofText t).starts[k] := Array.getElem?_eq_getElem hk
    rw [lineAt] at h
    exact ⟨_, hs, hbelow k _ (by omega) hs, fun next => habove (k + 1) next (by omega)⟩
  · intro h
    obtain ⟨s, hs, hle, hnext⟩ := h
    have hlt : k < (ofText t).startedBy pos := by
      by_contra hge
      have hgt := habove k s (by omega) hs
      omega
    have hge : (ofText t).startedBy pos ≤ k + 1 := by
      by_contra hlt
      have hsize := startedBy_le (ofText t) pos
      have hget : (ofText t).starts[k + 1]? = some (ofText t).starts[k + 1] := Array.getElem?_eq_getElem (by omega)
      have hle' := hbelow (k + 1) _ (by omega) hget
      have hgt := hnext _ hget
      omega
    rw [lineAt]
    omega

/-- A position from the start of a line up to its end is on that line. -/
theorem lineAt_of_isLine (h : IsLine before line after) (hle : byteLen before ≤ pos)
    (hge : pos ≤ byteLen before + byteLen line) :
    (ofText (before ++ line ++ after)).lineAt pos = before.count '\n' := by
  have hstart := getElem?_starts h.feed_before (line ++ after)
  rw [← List.append_assoc] at hstart
  have hlen : byteLen (before ++ line ++ after) = byteLen before + byteLen line + byteLen after := by
    rw [Text.byteLen_append, Text.byteLen_append]
  refine lineAt_eq_iff.2 ⟨_, hstart, by omega, fun next hnext => ?_⟩
  have hstop := stopOf_of_isLine h
  have hlt := lt_of_pairwise (pairwise_starts _) (Nat.lt_succ_self _) hstart hnext
  rw [stopOf, hnext] at hstop
  replace hstop : next - 1 = byteLen before + byteLen line := hstop
  omega

end LineTable

end Polyglot
