/-
  Polyglot.Diagnostic.LineTable — where the lines of a text start.

  A line ends before a line feed or with the text, so a text has one line more than it
  has line feeds. The line of a position is found by halving the table.

  `isSome_bounds?` and `lineAt_lt`: every line that a search comes to is in the table.
  `isBoundary_of_bounds?`: a line starts and ends between characters.
-/

import Polyglot.Text.Basic

namespace Polyglot

structure LineTable where
  text : Text
  /-- The length of the text in bytes. -/
  size : Nat
  /-- The positions at which the lines start, in order. -/
  starts : Array Nat

namespace LineTable

/-- The walk of `ofText` over what stands at `pos`. -/
def startsOnto (starts : Array Nat) (pos : Nat) : Text → Array Nat
  | [] => starts
  | c :: t =>
    if c = '\n' then startsOnto (starts.push (pos + 1)) (pos + 1) t
    else startsOnto starts (pos + c.utf8Size) t

def ofText (t : Text) : LineTable := ⟨t, Text.byteLen t, startsOnto #[0] 0 t⟩

/-- Where the line feed that ends a line stands; the last line ends with the text. -/
def stopOf (table : LineTable) (line : Nat) : Nat :=
  match table.starts[line + 1]? with
  | some next => next - 1
  | none => table.size

/-- Where a line starts and ends; `none` if there is no such line. -/
def bounds? (table : LineTable) (line : Nat) : Option (Nat × Nat) :=
  table.starts[line]?.map fun start => (start, max start (table.stopOf line))

/-- How many of the first `high` starts are not above `pos`, if the first `low` are not and the
    starts ascend. -/
def search (starts : Array Nat) (pos low high : Nat) (h : high ≤ starts.size) : Nat :=
  if hlt : low < high then
    if starts[(low + high) / 2] ≤ pos then search starts pos ((low + high) / 2 + 1) high h
    else search starts pos low ((low + high) / 2) (by omega)
  else low
termination_by high - low

/-- How many lines have started by a position; a position past the end counts as the end. -/
def startedBy (table : LineTable) (pos : Nat) : Nat :=
  search table.starts (min pos table.size) 0 table.starts.size (Nat.le_refl _)

/-- The line of a position, counted from 0; a position past the end is on the last line. -/
def lineAt (table : LineTable) (pos : Nat) : Nat := table.startedBy pos - 1

/-! ## The starts are boundaries -/

/-- Each start is a boundary, and each but the first follows a character of one byte. -/
def Boundaries (t : Text) (starts : Array Nat) : Prop :=
  (∀ k s : Nat, starts[k]? = some s → Text.IsBoundary t s) ∧
    ∀ k s : Nat, starts[k + 1]? = some s → Text.IsBoundary t (s - 1)

theorem Boundaries.push {t : Text} {starts : Array Nat} (h : Boundaries t starts) {s : Nat}
    (hs : Text.IsBoundary t s) (hs' : Text.IsBoundary t (s - 1)) : Boundaries t (starts.push s) := by
  refine ⟨fun k s' hk => ?_, fun k s' hk => ?_⟩
  · rw [Array.getElem?_push] at hk
    split at hk
    · exact Option.some.inj hk ▸ hs
    · exact h.1 _ _ hk
  · rw [Array.getElem?_push] at hk
    split at hk
    · exact Option.some.inj hk ▸ hs'
    · exact h.2 _ _ hk

theorem boundaries_startsOnto {starts : Array Nat} {u t : Text} (h : Boundaries (u ++ t) starts) :
    Boundaries (u ++ t) (startsOnto starts (Text.byteLen u) t) := by
  induction t generalizing starts u with
  | nil => exact h
  | cons c t ih =>
    rw [startsOnto]
    have happ : u ++ c :: t = (u ++ [c]) ++ t := by simp
    split
    · rename_i hc
      subst hc
      have hs : '\n'.utf8Size = 1 := rfl
      have hlen : Text.byteLen u + 1 = Text.byteLen (u ++ ['\n']) := by simp [hs]
      rw [hlen, happ]
      rw [happ] at h
      exact ih (h.push ⟨_, _, rfl, rfl⟩ ⟨u, ['\n'] ++ t, by simp, by omega⟩)
    · have hlen : Text.byteLen u + c.utf8Size = Text.byteLen (u ++ [c]) := by simp
      rw [hlen, happ]
      rw [happ] at h
      exact ih h

theorem size_le_startsOnto (starts : Array Nat) (pos : Nat) (t : Text) :
    starts.size ≤ (startsOnto starts pos t).size := by
  induction t generalizing starts pos with
  | nil => exact Nat.le_refl _
  | cons c t ih =>
    rw [startsOnto]
    split
    · have := ih (starts.push (pos + 1)) (pos + 1)
      simp only [Array.size_push] at this
      omega
    · exact ih _ _

theorem boundaries_ofText (t : Text) : Boundaries t (ofText t).starts := by
  refine boundaries_startsOnto (u := []) ⟨fun k s hk => ?_, fun k s hk => ?_⟩
  · cases k with
    | zero =>
      simp only [Option.some.injEq, List.getElem?_toArray, List.getElem?_cons_zero] at hk
      subst hk
      exact Text.isBoundary_zero _
    | succ k => simp at hk
  · simp at hk

theorem starts_size_pos (t : Text) : 0 < (ofText t).starts.size :=
  Nat.lt_of_lt_of_le (by simp) (size_le_startsOnto #[0] 0 t)

/-! ## Lines are in the table -/

theorem search_le (starts : Array Nat) (pos : Nat) {low high : Nat} (h : high ≤ starts.size) (hle : low ≤ high) :
    search starts pos low high h ≤ high := by
  fun_induction search starts pos low high h with
  | case1 low high h hlt _ ih => exact ih (by omega)
  | case2 low high h hlt _ ih => have := ih (by omega); omega
  | case3 low high h hlt => exact hle

theorem startedBy_le (table : LineTable) (pos : Nat) : table.startedBy pos ≤ table.starts.size :=
  search_le table.starts _ (Nat.le_refl _) (Nat.zero_le _)

theorem lineAt_lt (t : Text) (pos : Nat) : (ofText t).lineAt pos < (ofText t).starts.size := by
  have h := starts_size_pos t
  have hle := startedBy_le (ofText t) pos
  unfold lineAt
  omega

theorem isSome_bounds? {table : LineTable} {line : Nat} (h : line < table.starts.size) :
    (table.bounds? line).isSome = true := by
  simp [bounds?, h]

theorem isBoundary_stopOf (t : Text) (line : Nat) : Text.IsBoundary t ((ofText t).stopOf line) := by
  unfold stopOf
  split
  · exact (boundaries_ofText t).2 _ _ ‹_›
  · exact Text.isBoundary_byteLen t

theorem isBoundary_of_bounds? {t : Text} {line start stop : Nat} (h : (ofText t).bounds? line = some (start, stop)) :
    Text.IsBoundary t start ∧ Text.IsBoundary t stop ∧ start ≤ stop := by
  simp only [bounds?, Option.map_eq_some_iff, Prod.mk.injEq] at h
  obtain ⟨s, hs, rfl, rfl⟩ := h
  have hb := (boundaries_ofText t).1 _ _ hs
  refine ⟨hb, ?_, Nat.le_max_left _ _⟩
  rcases Nat.le_total s ((ofText t).stopOf line) with hle | hle
  · exact (Nat.max_eq_right hle).symm ▸ isBoundary_stopOf t line
  · exact (Nat.max_eq_left hle).symm ▸ hb

end LineTable

end Polyglot
