/-
  Polyglot.Proofs.Path — the parts of a path and the directories on its way.

  `isPrefix_parent`: every directory on the way to what a path names is written as a
  front part of the nearest one.
-/

import Polyglot.Path

namespace Polyglot.Path

/-! ## Parts -/

theorem intercalate_append_nil (sep : UInt8) {xs : List Bytes} (h : xs ≠ []) :
    [sep].intercalate (xs ++ [[]]) = [sep].intercalate xs ++ [sep] := by
  induction xs with
  | nil => exact absurd rfl h
  | cons x xs ih =>
    cases xs with
    | nil => simp
    | cons y ys =>
      have := ih (by simp)
      simp only [List.cons_append, List.intercalate_cons_cons, List.append_assoc] at this ⊢
      rw [this]

/-- A path whose last part is empty ends in a slash, unless it has no other part. -/
theorem getLast?_of_parts {p : Path} {xs : List Bytes} (h : p.parts = xs ++ [[]]) (hx : xs ≠ []) :
    p.getLast? = some slash := by
  have hp : p = [slash].intercalate p.parts := (List.intercalate_splitOn slash).symm
  rw [hp, h, intercalate_append_nil slash hx]
  simp

theorem of_dropWhile_blank {xs way : List Bytes} {name : Bytes} (h : xs.dropWhile (· == []) = name :: way) :
    ∃ blanks, xs = blanks ++ name :: way ∧ (∀ part ∈ blanks, part = []) ∧ name ≠ [] := by
  induction xs with
  | nil => cases h
  | cons x xs ih =>
    by_cases hx : x = []
    · rw [List.dropWhile_cons_of_pos (by simp [hx])] at h
      obtain ⟨blanks, rfl, hblank, hname⟩ := ih h
      exact ⟨x :: blanks, rfl, by simpa [hx] using hblank, hname⟩
    · rw [List.dropWhile_cons_of_neg (by simp [hx])] at h
      cases h
      exact ⟨[], rfl, by simp, hx⟩

/-- The parts of a path up to its name, its name, and the empty parts after it. -/
theorem parts_of_dropWhile {p : Path} {way : List Bytes} {name : Bytes}
    (h : p.parts.reverse.dropWhile (· == []) = name :: way) :
    ∃ blanks, p.parts = way.reverse ++ name :: blanks ∧ (∀ part ∈ blanks, part = []) ∧ name ≠ [] ∧
      (p.getLast? ≠ some slash → blanks = []) := by
  obtain ⟨blanks, hp, hblank, hname⟩ := of_dropWhile_blank h
  have hparts : p.parts = way.reverse ++ name :: blanks.reverse := by
    rw [← List.reverse_reverse p.parts, hp]
    simp
  refine ⟨blanks.reverse, hparts, by simpa using hblank, hname, ?_⟩
  intro hend
  cases blanks with
  | nil => rfl
  | cons part blanks =>
    have hlast : p.parts = (way.reverse ++ name :: blanks.reverse) ++ [[]] := by
      rw [hparts, hblank part (by simp)]
      simp
    exact absurd (getLast?_of_parts hlast (by simp)) hend

/-! ## Prefixes -/

theorem append_slash_isPrefix {done q : Path} {rest : List Bytes} (h : q ∈ prefixesFrom done rest) :
    done ++ [slash] <+: q := by
  induction rest generalizing done with
  | nil => cases h
  | cons part rest ih =>
    have hnext : done ++ [slash] <+: done ++ slash :: part := ⟨part, by simp⟩
    have hfrom (h : q ∈ prefixesFrom (done ++ slash :: part) rest) : done ++ [slash] <+: q :=
      hnext.trans ((List.prefix_append _ _).trans (ih h))
    simp only [prefixesFrom] at h
    split at h
    · exact hfrom h
    · rcases List.mem_cons.1 h with rfl | h
      · exact hnext
      · exact hfrom h

theorem isPrefix_of_mem_prefixesFrom {done q : Path} {rest : List Bytes} (h : q ∈ prefixesFrom done rest) :
    done <+: q :=
  (List.prefix_append _ _).trans (append_slash_isPrefix h)

theorem pairwise_prefixesFrom (done : Path) (rest : List Bytes) :
    (prefixesFrom done rest).Pairwise (· <+: ·) := by
  induction rest generalizing done with
  | nil => exact .nil
  | cons part rest ih =>
    simp only [prefixesFrom]
    split
    · exact ih _
    · exact List.pairwise_cons.2 ⟨fun q hq => isPrefix_of_mem_prefixesFrom hq, ih _⟩

/-- The paths that a path passes through are front parts of one another. -/
theorem pairwise_prefixes (p : Path) : p.prefixes.Pairwise (· <+: ·) := by
  unfold prefixes
  split
  · exact .nil
  · exact .nil
  · exact List.pairwise_cons.2 ⟨fun q hq => append_slash_isPrefix hq, pairwise_prefixesFrom _ _⟩
  · exact List.pairwise_cons.2 ⟨fun q hq => isPrefix_of_mem_prefixesFrom hq, pairwise_prefixesFrom _ _⟩

/-- The directories on the way are written as front parts of the nearest. -/
theorem isPrefix_parent {p q : Path} (h : q ∈ p.parents) : ∃ parent, p.parents.head? = some parent ∧ q <+: parent := by
  have hp : p.parents.Pairwise fun a b => b <+: a :=
    List.pairwise_reverse.2 ((pairwise_prefixes p).sublist (List.dropLast_sublist _))
  cases hl : p.parents with
  | nil => rw [hl] at h; cases h
  | cons parent above =>
    rw [hl] at h hp
    refine ⟨parent, rfl, ?_⟩
    rcases List.mem_cons.1 h with rfl | h
    · exact List.prefix_rfl
    · exact List.rel_of_pairwise_cons hp h

end Polyglot.Path
