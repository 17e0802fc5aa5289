/-
  Polyglot.Proofs.Hazard.Maximal — the hazards of a text are its longest runs.

  `Runs` says which lists of hazards tell where the carriage returns and NULs of a text
  stand. The members of such a list are exactly the runs that go on neither before their
  start nor after their stop (`Runs.mem_iff`), and they stand in the order of the text. So
  there is one such list only (`Runs.unique`), and a scan finds it (`eq_scan_iff_runs`).
-/

import Mathlib.Data.List.Chain
import Mathlib.Data.List.Sort
import Polyglot.Proofs.Hazard.Runs

namespace Polyglot

/-! ## Where a character stands -/

/-- The character `c` stands at byte position `i`. -/
def Text.At (t : Text) (i : Nat) (c : Char) : Prop := ∃ u v, t = u ++ c :: v ∧ byteLen u = i

theorem Text.At.unique {t : Text} {i : Nat} {c d : Char} (hc : t.At i c) (hd : t.At i d) : c = d := by
  obtain ⟨u, v, ht, hu⟩ := hc
  obtain ⟨u', v', ht', hu'⟩ := hd
  have hrest := (append_inj_byteLen (ht.symm.trans ht') (hu.trans hu'.symm)).2
  exact (List.cons.inj hrest).1

theorem Text.mem_positionsFrom_iff {c : Char} {pos i : Nat} {t : Text} :
    i ∈ positionsFrom c pos t ↔ ∃ j, t.At j c ∧ i = pos + j := by
  induction t generalizing pos with
  | nil =>
    constructor
    · intro h
      exact absurd h List.not_mem_nil
    · intro h
      obtain ⟨j, ⟨u, v, ht, -⟩, -⟩ := h
      simp at ht
  | cons d t ih =>
    rw [positionsFrom, List.mem_append, ih]
    constructor
    · intro h
      rcases h with h | ⟨j, ⟨u, v, rfl, rfl⟩, rfl⟩
      · by_cases hd : d = c
        · rw [if_pos hd, List.mem_singleton] at h
          exact ⟨0, ⟨[], t, by rw [hd]; rfl, rfl⟩, h⟩
        · rw [if_neg hd] at h
          exact absurd h List.not_mem_nil
      · exact ⟨_, ⟨d :: u, v, rfl, rfl⟩, by simp only [byteLen_cons]; omega⟩
    · intro h
      obtain ⟨j, ⟨u, v, ht, rfl⟩, rfl⟩ := h
      cases u with
      | nil =>
        left
        rw [if_pos (List.cons.inj ht).1]
        exact List.mem_singleton.2 rfl
      | cons d' u =>
        obtain ⟨rfl, hrest⟩ := List.cons.inj ht
        exact Or.inr ⟨byteLen u, ⟨u, v, hrest, rfl⟩, by simp only [byteLen_cons]; omega⟩

namespace Hazard

variable {t : Text} {hs hs' : List Hazard} {h g : Hazard} {n i : Nat}

theorem mem_positions_iff : i ∈ h.positions ↔ h.start ≤ i ∧ i < h.stop := by
  simp only [positions, len, List.mem_range'_1]
  omega

/-! ## Runs that stand apart -/

theorem Apart.trans {k : Hazard} (hhg : h.Apart g) (hg : g.start < g.stop) (hgk : g.Apart k) : h.Apart k := by
  have hle : h.stop ≤ g.start := hhg.before
  have hle' : g.stop ≤ k.start := hgk.before
  refine ⟨?_, fun _ => ?_⟩
  · show h.stop ≤ k.start
    omega
  · omega

theorem pairwise_of_isChain (hw : ∀ h ∈ hs, Within n h) (hc : hs.IsChain Apart) : hs.Pairwise Apart := by
  induction hs with
  | nil => exact .nil
  | cons h hs ih =>
    obtain ⟨hhead, hc⟩ := List.isChain_cons.1 hc
    have htail := ih (fun g hg => hw g (List.mem_cons_of_mem h hg)) hc
    refine List.pairwise_cons.2 ⟨fun g hg => ?_, htail⟩
    cases hs with
    | nil => cases hg
    | cons next rest =>
      have hnext : h.Apart next := hhead next rfl
      rcases List.mem_cons.1 hg with rfl | hg
      · exact hnext
      · have hlt := (hw next (List.mem_cons_of_mem h List.mem_cons_self)).start_lt_stop
        exact hnext.trans hlt (List.rel_of_pairwise_cons htail hg)

theorem apart_or_apart (hp : hs.Pairwise Apart) (hh : h ∈ hs) (hg : g ∈ hs) (hne : h ≠ g) :
    h.Apart g ∨ g.Apart h := by
  have hsymm : Std.Symm fun h g : Hazard => h.Apart g ∨ g.Apart h := ⟨fun _ _ => Or.symm⟩
  have heither : hs.Pairwise fun h g => h.Apart g ∨ g.Apart h := hp.imp Or.inl
  exact heither.forall hh hg hne

/-- Runs that stand apart share no position. -/
theorem eq_of_shared (hp : hs.Pairwise Apart) (hh : h ∈ hs) (hg : g ∈ hs) (hi : h.start ≤ i ∧ i < h.stop)
    (hi' : g.start ≤ i ∧ i < g.stop) : h = g := by
  by_contra hne
  rcases apart_or_apart hp hh hg hne with hx | hx
  · have hle : h.stop ≤ g.start := hx.before
    omega
  · have hle : g.stop ≤ h.start := hx.before
    omega

/-! ## Lists of runs -/

/-- Where the carriage returns and NULs of a text stand: in ranges of one kind each, every one of
    them in one range, and the ranges in order with something else between two of one kind. -/
structure Runs (t : Text) (hs : List Hazard) : Prop where
  within : ∀ h ∈ hs, Within (Text.byteLen t) h
  at_of_mem : ∀ h ∈ hs, ∀ i, h.start ≤ i → i < h.stop → t.At i h.kind.char
  existsUnique : ∀ (kind : HazardKind) (i : Nat), t.At i kind.char → ∃! h, h ∈ hs ∧ h.start ≤ i ∧ i < h.stop
  isChain : hs.IsChain Apart

/-- A run that goes on neither before its start nor after its stop. -/
structure IsMaximal (t : Text) (h : Hazard) : Prop where
  start_lt_stop : h.start < h.stop
  at_of_le : ∀ i, h.start ≤ i → i < h.stop → t.At i h.kind.char
  not_before : ∀ i, i + 1 = h.start → ¬ t.At i h.kind.char
  not_after : ¬ t.At h.stop h.kind.char

theorem IsMaximal.start_le (hh : IsMaximal t h) (hg : IsMaximal t g) (hkind : h.kind = g.kind)
    (hi : h.start ≤ i ∧ i < h.stop) (hi' : g.start ≤ i ∧ i < g.stop) : h.start ≤ g.start := by
  by_contra hlt
  apply hh.not_before (h.start - 1) (by omega)
  rw [hkind]
  exact hg.at_of_le _ (by omega) (by omega)

theorem IsMaximal.stop_le (hh : IsMaximal t h) (hg : IsMaximal t g) (hkind : h.kind = g.kind)
    (hi : h.start ≤ i ∧ i < h.stop) (hi' : g.start ≤ i ∧ i < g.stop) : g.stop ≤ h.stop := by
  by_contra hlt
  apply hh.not_after
  rw [hkind]
  exact hg.at_of_le _ (by omega) (by omega)

/-- Two longest runs of a kind that share a position are one. -/
theorem IsMaximal.eq_of_shared (hh : IsMaximal t h) (hg : IsMaximal t g) (hkind : h.kind = g.kind)
    (hi : h.start ≤ i ∧ i < h.stop) (hi' : g.start ≤ i ∧ i < g.stop) : h = g := by
  have hstart := Nat.le_antisymm (hh.start_le hg hkind hi hi') (hg.start_le hh hkind.symm hi' hi)
  have hstop := Nat.le_antisymm (hg.stop_le hh hkind.symm hi' hi) (hh.stop_le hg hkind hi hi')
  cases h
  cases g
  rw [mk.injEq]
  exact ⟨hkind, hstart, hstop⟩

namespace Runs

theorem pairwise_apart (hr : Runs t hs) : hs.Pairwise Apart := pairwise_of_isChain hr.within hr.isChain

/-- A character of a kind stands in a run of that kind. -/
theorem exists_mem_of_at (hr : Runs t hs) {kind : HazardKind} (hi : t.At i kind.char) :
    ∃ h ∈ hs, h.kind = kind ∧ h.start ≤ i ∧ i < h.stop := by
  obtain ⟨h, ⟨hh, hstart, hstop⟩, -⟩ := hr.existsUnique kind i hi
  have hchar := (hr.at_of_mem h hh i hstart hstop).unique hi
  exact ⟨h, hh, HazardKind.char_inj.1 hchar, hstart, hstop⟩

/-- The character next to a run is not of its kind: it would stand in another run, right before or
    right after this one. -/
theorem not_at_of_next (hr : Runs t hs) (hh : h ∈ hs) (hi : i + 1 = h.start ∨ i = h.stop) :
    ¬ t.At i h.kind.char := by
  intro hat
  obtain ⟨g, hg, hkind, hstart, hstop⟩ := hr.exists_mem_of_at hat
  have hlt := (hr.within h hh).start_lt_stop
  have hne : h ≠ g := by
    intro heq
    subst heq
    omega
  rcases apart_or_apart hr.pairwise_apart hh hg hne with hx | hx
  · have hle : h.stop ≤ g.start := hx.before
    have hnot := hx.stop_ne_start hkind.symm
    omega
  · have hle : g.stop ≤ h.start := hx.before
    have hnot := hx.stop_ne_start hkind
    omega

theorem isMaximal (hr : Runs t hs) (hh : h ∈ hs) : IsMaximal t h where
  start_lt_stop := (hr.within h hh).start_lt_stop
  at_of_le := hr.at_of_mem h hh
  not_before _ hi := hr.not_at_of_next hh (Or.inl hi)
  not_after := hr.not_at_of_next hh (Or.inr rfl)

theorem mem_iff (hr : Runs t hs) : h ∈ hs ↔ IsMaximal t h := by
  constructor
  · exact hr.isMaximal
  · intro hm
    have hfirst : h.start ≤ h.start ∧ h.start < h.stop := ⟨Nat.le_refl _, hm.start_lt_stop⟩
    obtain ⟨g, hg, hkind, hi⟩ := hr.exists_mem_of_at (hm.at_of_le _ hfirst.1 hfirst.2)
    rw [hm.eq_of_shared (hr.isMaximal hg) hkind.symm hfirst hi]
    exact hg

theorem pairwise_start (hr : Runs t hs) : hs.Pairwise fun h g => h.start < g.start := by
  refine hr.pairwise_apart.imp_of_mem fun {h g} hh _ hx => ?_
  have hlt := (hr.within h hh).start_lt_stop
  have hle : h.stop ≤ g.start := hx.before
  omega

theorem unique (hr : Runs t hs) (hr' : Runs t hs') : hs = hs' := by
  have hirrefl : Std.Irrefl fun h g : Hazard => h.start < g.start := ⟨fun _ => Nat.lt_irrefl _⟩
  have hantisymm : Std.Antisymm fun h g : Hazard => h.start < g.start :=
    ⟨fun _ _ hlt hlt' => absurd hlt (Nat.lt_asymm hlt')⟩
  exact hr.pairwise_start.eq_of_mem_iff hr'.pairwise_start fun _ => hr.mem_iff.trans hr'.mem_iff.symm

end Runs

/-! ## The scan -/

theorem at_iff_covered {kind : HazardKind} :
    t.At i kind.char ↔ ∃ h ∈ scan t, h.kind = kind ∧ h.start ≤ i ∧ i < h.stop := by
  have hpositions : t.At i kind.char ↔ i ∈ Text.positionsFrom kind.char 0 t := by
    rw [Text.mem_positionsFrom_iff]
    simp
  rw [hpositions, ← covered_scan, mem_covered_iff]
  simp only [mem_positions_iff]

theorem runs_scan (t : Text) : Runs t (scan t) where
  within _ hh := within_scan hh
  at_of_mem h hh i hstart hstop := at_iff_covered.2 ⟨h, hh, rfl, hstart, hstop⟩
  existsUnique kind i hi := by
    obtain ⟨h, hh, -, hi⟩ := at_iff_covered.1 hi
    exact ⟨h, ⟨hh, hi⟩, fun g hg => eq_of_shared (pairwise_apart_scan t) hg.1 hh hg.2 hi⟩
  isChain := (pairwise_apart_scan t).isChain

/-- What a scan finds is the one list of ranges that tells where the carriage returns and NULs of a
    text stand, in order and with no two ranges of a kind touching. -/
theorem eq_scan_iff_runs (t : Text) (hs : List Hazard) : hs = scan t ↔ Runs t hs := by
  constructor
  · intro h
    rw [h]
    exact runs_scan t
  · intro hr
    exact hr.unique (runs_scan t)

end Hazard

end Polyglot
