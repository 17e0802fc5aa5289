/-
  Polyglot.Proofs.Hazard.Runs — what the runs found by a scan cover.

  The runs of a kind cover the positions of its character, each once and in order
  (`covered_scan`). So they cover as many positions as the character is often in the text
  (`length_covered_scan`), and there is such a run exactly if it is there at all
  (`exists_mem_scan_iff`). Every run lies within the text (`within_scan`), and the runs
  stand in its order, none of them going on in another (`pairwise_apart_scan`).
-/

import Polyglot.Hazard

namespace Polyglot

/-- The character that hazards of a kind are runs of. -/
def HazardKind.char : HazardKind → Char
  | carriageReturn => '\r'
  | nul => '\x00'

theorem HazardKind.ofChar?_eq_some_iff {c : Char} {kind : HazardKind} : ofChar? c = some kind ↔ c = kind.char := by
  unfold ofChar?
  by_cases hr : c = '\r'
  · subst hr
    cases kind <;> simp [HazardKind.char]
  by_cases hn : c = '\x00'
  · subst hn
    cases kind <;> simp [HazardKind.char]
  · cases kind <;> simp [HazardKind.char, hr, hn]

theorem HazardKind.char_inj {kind kind' : HazardKind} : kind.char = kind'.char ↔ kind = kind' := by
  cases kind <;> cases kind' <;> decide

/-- The positions at which `c` stands in a text that starts at `pos`. -/
def Text.positionsFrom (c : Char) (pos : Nat) : Text → List Nat
  | [] => []
  | d :: t => (if d = c then [pos] else []) ++ positionsFrom c (pos + d.utf8Size) t

theorem Text.length_positionsFrom (c : Char) (pos : Nat) (t : Text) : (positionsFrom c pos t).length = t.count c := by
  induction t generalizing pos with
  | nil => rfl
  | cons d t ih =>
    rw [positionsFrom, List.length_append, ih, List.count_cons]
    by_cases hd : d = c
    · simp [hd]
      omega
    · simp [hd]

namespace Hazard

variable {found : List Hazard} {kind : HazardKind} {pos n : Nat}

/-- The positions in a run. -/
def positions (h : Hazard) : List Nat := List.range' h.start h.len

theorem length_positions (h : Hazard) : h.positions.length = h.len := List.length_range'

/-- The positions in the runs of a kind. -/
def covered (kind : HazardKind) (hs : List Hazard) : List Nat := (hs.filter (·.kind = kind)).flatMap positions

/-- The run is not empty and ends at `n` or before. -/
structure Within (n : Nat) (h : Hazard) : Prop where
  start_lt_stop : h.start < h.stop
  stop_le : h.stop ≤ n

theorem Within.mono {m : Nat} {h : Hazard} (hw : Within n h) (hle : n ≤ m) : Within m h :=
  ⟨hw.start_lt_stop, Nat.le_trans hw.stop_le hle⟩

theorem Within.start_mem_positions {h : Hazard} (hw : Within n h) : h.start ∈ h.positions := by
  have := hw.start_lt_stop
  simp only [positions, len, List.mem_range'_1]
  omega

/-- The run ends where the other starts or before. -/
def Before (h h' : Hazard) : Prop := h.stop ≤ h'.start

/-- The run ends before the other, and the other does not go on with it. -/
structure Apart (h h' : Hazard) : Prop where
  before : h.Before h'
  stop_ne_start : h.kind = h'.kind → h.stop ≠ h'.start

theorem mem_covered_iff {hs : List Hazard} {i : Nat} :
    i ∈ covered kind hs ↔ ∃ h ∈ hs, h.kind = kind ∧ i ∈ h.positions := by
  simp [covered, List.mem_flatMap, List.mem_filter, and_assoc]

theorem covered_append (kind : HazardKind) (hs hs' : List Hazard) :
    covered kind (hs ++ hs') = covered kind hs ++ covered kind hs' := by
  rw [covered, List.filter_append, List.flatMap_append]
  rfl

theorem covered_singleton (kind : HazardKind) (h : Hazard) :
    covered kind [h] = if h.kind = kind then h.positions else [] := by
  by_cases hk : h.kind = kind
  · simp [covered, hk]
  · simp [covered, hk]

/-! ## One character -/

/-- A run that is made longer covers one position more. -/
theorem positions_lengthen {h : Hazard} (hlt : h.start < h.stop) :
    positions { h with stop := h.stop + 1 } = h.positions ++ [h.stop] := by
  have hlen : h.stop + 1 - h.start = (h.stop - h.start) + 1 := by omega
  have hstop : h.start + (h.stop - h.start) = h.stop := by omega
  simp only [positions, len, hlen, List.range'_concat, Nat.one_mul, hstop]

theorem covered_extend (hfound : ∀ h ∈ found, Within pos h) (kind kind' : HazardKind) :
    covered kind (extend found kind' pos).reverse =
      covered kind found.reverse ++ if kind' = kind then [pos] else [] := by
  have hnew : positions ⟨kind', pos, pos + 1⟩ = [pos] := by simp [positions, len]
  unfold extend
  split
  · rename_i last before
    split
    · rename_i hlast
      obtain ⟨rfl, rfl⟩ := hlast
      rw [List.reverse_cons, List.reverse_cons, covered_append, covered_append, covered_singleton, covered_singleton,
        List.append_assoc, positions_lengthen (hfound last List.mem_cons_self).start_lt_stop]
      split
      · rfl
      · rfl
    · rw [List.reverse_cons, covered_append, covered_singleton, hnew]
  · rw [List.reverse_singleton, covered_singleton, hnew]
    rfl

theorem within_extend (hfound : ∀ h ∈ found, Within pos h) (hpos : pos < n) (kind : HazardKind) :
    ∀ h ∈ extend found kind pos, Within n h := by
  have hold : ∀ h ∈ found, Within n h := fun h hh => (hfound h hh).mono (Nat.le_of_lt hpos)
  intro h hh
  unfold extend at hh
  split at hh
  · rename_i last before
    split at hh
    · rename_i hlast
      rcases List.mem_cons.1 hh with rfl | hh
      · have := (hfound last List.mem_cons_self).start_lt_stop
        exact ⟨by simp only; omega, hpos⟩
      · exact hold h (List.mem_cons_of_mem last hh)
    · rcases List.mem_cons.1 hh with rfl | hh
      · exact ⟨Nat.lt_succ_self pos, hpos⟩
      · exact hold h hh
  · rw [List.mem_singleton.1 hh]
    exact ⟨Nat.lt_succ_self pos, hpos⟩

/-- The runs found so far stand last first. -/
theorem pairwise_extend (hfound : ∀ h ∈ found, Within pos h) (hs : found.Pairwise fun h h' => h'.Apart h)
    (kind : HazardKind) : (extend found kind pos).Pairwise fun h h' => h'.Apart h := by
  unfold extend
  split
  · rename_i last before
    have hlast : ∀ h ∈ before, h.Apart last := fun h hh => List.rel_of_pairwise_cons hs hh
    split
    · -- a run that is made longer starts where it did
      exact List.pairwise_cons.2 ⟨fun h hh => ⟨(hlast h hh).before, (hlast h hh).stop_ne_start⟩, hs.of_cons⟩
    · rename_i hnew
      refine List.pairwise_cons.2 ⟨fun h hh => ⟨(hfound h hh).stop_le, fun hkind hstop => ?_⟩, hs⟩
      rcases List.mem_cons.1 hh with rfl | hh
      · exact hnew ⟨hstop, hkind⟩
      · -- the last run stands between the two
        have hle : h.stop ≤ last.start := (hlast h hh).before
        have hlt := (hfound last List.mem_cons_self).start_lt_stop
        have hle' := (hfound last List.mem_cons_self).stop_le
        simp only at hstop
        omega
  · exact List.pairwise_singleton _ _

/-! ## A text -/

theorem covered_scanOnto (hfound : ∀ h ∈ found, Within pos h) (kind : HazardKind) (t : Text) :
    covered kind (scanOnto found pos t) = covered kind found.reverse ++ Text.positionsFrom kind.char pos t := by
  induction t generalizing found pos with
  | nil => simp [scanOnto, Text.positionsFrom]
  | cons c t ih =>
    have hpos : pos < pos + c.utf8Size := Nat.lt_add_of_pos_right c.utf8Size_pos
    rw [scanOnto, Text.positionsFrom]
    cases hc : HazardKind.ofChar? c with
    | some kind' =>
      obtain rfl := HazardKind.ofChar?_eq_some_iff.1 hc
      dsimp only
      rw [ih (within_extend hfound hpos kind'), covered_extend hfound, List.append_assoc]
      simp only [HazardKind.char_inj]
    | none =>
      have hne : c ≠ kind.char := by
        intro h
        rw [HazardKind.ofChar?_eq_some_iff.2 h] at hc
        cases hc
      dsimp only
      rw [ih fun h hh => (hfound h hh).mono (Nat.le_of_lt hpos), if_neg hne, List.nil_append]

theorem within_scanOnto (hfound : ∀ h ∈ found, Within pos h) (t : Text) :
    ∀ h ∈ scanOnto found pos t, Within (pos + Text.byteLen t) h := by
  induction t generalizing found pos with
  | nil => simpa [scanOnto] using hfound
  | cons c t ih =>
    have hpos : pos < pos + c.utf8Size := Nat.lt_add_of_pos_right c.utf8Size_pos
    rw [scanOnto, Text.byteLen_cons, ← Nat.add_assoc]
    cases hc : HazardKind.ofChar? c with
    | some kind => exact ih (within_extend hfound hpos kind)
    | none => exact ih fun h hh => (hfound h hh).mono (Nat.le_of_lt hpos)

theorem pairwise_scanOnto (hfound : ∀ h ∈ found, Within pos h) (hs : found.Pairwise fun h h' => h'.Apart h)
    (t : Text) : (scanOnto found pos t).Pairwise Apart := by
  induction t generalizing found pos with
  | nil => exact List.pairwise_reverse.2 hs
  | cons c t ih =>
    have hpos : pos < pos + c.utf8Size := Nat.lt_add_of_pos_right c.utf8Size_pos
    rw [scanOnto]
    cases HazardKind.ofChar? c with
    | some kind => exact ih (within_extend hfound hpos kind) (pairwise_extend hfound hs kind)
    | none => exact ih (fun h hh => (hfound h hh).mono (Nat.le_of_lt hpos)) hs

theorem within_nil (n : Nat) : ∀ h ∈ ([] : List Hazard), Within n h := fun _ h => absurd h List.not_mem_nil

theorem covered_scan (kind : HazardKind) (t : Text) : covered kind (scan t) = Text.positionsFrom kind.char 0 t :=
  covered_scanOnto (within_nil 0) kind t

theorem within_scan {t : Text} {h : Hazard} (hh : h ∈ scan t) : Within (Text.byteLen t) h := by
  have := within_scanOnto (within_nil 0) t h hh
  rwa [Nat.zero_add] at this

theorem pairwise_apart_scan (t : Text) : (scan t).Pairwise Apart := pairwise_scanOnto (within_nil 0) .nil t

theorem pairwise_scan (t : Text) : (scan t).Pairwise Before := (pairwise_apart_scan t).imp Apart.before

theorem length_covered_scan (kind : HazardKind) (t : Text) : (covered kind (scan t)).length = t.count kind.char := by
  rw [covered_scan, Text.length_positionsFrom]

theorem exists_mem_scan_iff {t : Text} : (∃ h ∈ scan t, h.kind = kind) ↔ kind.char ∈ t := by
  rw [← List.count_pos_iff, ← length_covered_scan, List.length_pos_iff_exists_mem]
  constructor
  · intro hx
    obtain ⟨h, hh, hk⟩ := hx
    exact ⟨h.start, mem_covered_iff.2 ⟨h, hh, hk, (within_scan hh).start_mem_positions⟩⟩
  · intro hx
    obtain ⟨i, hi⟩ := hx
    obtain ⟨h, hh, hk, -⟩ := mem_covered_iff.1 hi
    exact ⟨h, hh, hk⟩

end Hazard

end Polyglot
