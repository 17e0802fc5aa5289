/-
  Polyglot.Proofs.FileTree.Again — storing a file a second time.

  Where a path names something, no directory is made (`makeDirectory_of_resolve`), and
  after a file was stored the directory that it stands in is there
  (`isDirectory_of_makeDirectories`). So storing the same file once more succeeds again
  and changes nothing (`store_again`). What was read from any other file is still
  read from it (`Stored.read`).
-/

import Polyglot.Proofs.FileTree.Reading
import Polyglot.Proofs.FileTree.Storing

namespace Polyglot.FileTree

variable {t t' : FileTree} {p q : Path} {l : Location} {data : Bytes}

theorem put_put (t : FileTree) (l : Location) (n : Node) : (t.put l n).put l n = t.put l n := by
  simp [put, List.filter_filter]

/-! ## Slots -/

theorem slot_of_walk {within : Location} {name : Bytes} {way : List Bytes}
    (hway : p.parts.reverse.dropWhile (· == []) = name :: way) (hwalk : t.walk p way.reverse = .ok within)
    (hd : t.node? within = some .directory) :
    t.slot p = .ok (if name = Path.here ∨ name = Path.above then .directory else .entry within name) := by
  unfold slot
  rw [hway]
  dsimp only
  rw [hwalk]
  by_cases hname : name = Path.here ∨ name = Path.above
  · simp only [bind, Except.bind, hd, hname, ne_eq, not_true_eq_false, if_false, if_true]
    rfl
  · simp only [bind, Except.bind, hd, hname, ne_eq, not_true_eq_false, if_false]
    rfl

theorem walk_of_slot {within : Location} {name : Bytes} (h : t.slot p = .ok (.entry within name)) :
    ∃ way, p.parts.reverse.dropWhile (· == []) = name :: way ∧ t.walk p way.reverse = .ok within ∧
      t.node? within = some .directory ∧ ¬(name = Path.here ∨ name = Path.above) := by
  unfold slot at h
  split at h
  · cases hw : t.walk p [] <;> rw [hw] at h <;> cases h
  · rename_i name' way hway
    obtain ⟨within', hwalk, h⟩ := bind_eq_ok_iff.1 h
    split at h
    · cases h
    rename_i hd
    split at h
    · cases h
    rename_i hname
    cases h
    exact ⟨way, hway, hwalk, Decidable.not_not.1 hd, hname⟩

theorem Extends.slot (h : Extends t t') {within : Location} {name : Bytes}
    (hs : t.slot p = .ok (.entry within name)) : t'.slot p = .ok (.entry within name) := by
  obtain ⟨way, hway, hwalk, hd, hname⟩ := walk_of_slot hs
  rw [slot_of_walk hway (h.walk hwalk) (h.directory _ hd), if_neg hname]

/-- The slot of a path that names something is a directory or a name that is taken. -/
theorem slot_of_resolve (h : t.resolve p = .ok l) :
    t.slot p = .ok .directory ∨ ∃ within name, t.slot p = .ok (.entry within name) ∧ name.length ≤ nameLimit ∧
      (t.node? (within ++ [name])).isSome = true := by
  obtain ⟨hp, hlen, hparts⟩ := walk_eq_ok_iff.1 h
  cases hway : p.parts.reverse.dropWhile (· == []) with
  | nil =>
    have hwalk : t.walk p [] = .ok (t.startOf p) := walk_eq_ok_iff.2 ⟨hp, hlen, rfl⟩
    left
    unfold slot
    rw [hway]
    dsimp only
    rw [hwalk]
    rfl
  | cons name way =>
    obtain ⟨blanks, heq, -, hne, -⟩ := Path.parts_of_dropWhile hway
    rw [heq, List.foldlM_append, bind_eq_ok_iff] at hparts
    obtain ⟨within, hwithin, hparts⟩ := hparts
    rw [List.foldlM_cons, bind_eq_ok_iff] at hparts
    obtain ⟨l', hstep, -⟩ := hparts
    obtain ⟨hd, hstep⟩ := step_eq_ok_iff.1 hstep
    rw [slot_of_walk hway (walk_eq_ok_iff.2 ⟨hp, hlen, hwithin⟩) hd]
    by_cases hname : name = Path.here ∨ name = Path.above
    · exact Or.inl (by rw [if_pos hname])
    · refine Or.inr ⟨within, name, by rw [if_neg hname], ?_⟩
      rcases hstep with ⟨hidle, -⟩ | ⟨-, habove, -⟩ | ⟨-, -, hshort, hsome, -⟩
      · simp [Path.isIdle, hne, (not_or.1 hname).1] at hidle
      · exact absurd habove (not_or.1 hname).2
      · exact ⟨hshort, hsome⟩

/-! ## Directories -/

theorem makeDirectory_of_resolve (h : t.resolve p = .ok l) : t.makeDirectory p = (.error .alreadyExists, t) := by
  unfold makeDirectory
  rcases slot_of_resolve h with hs | ⟨within, name, hs, hshort, hsome⟩
  · rw [hs]
  · rw [hs]
    dsimp only
    rw [if_neg (by omega), if_pos hsome]

theorem isDirectory_iff : t.isDirectory p = true ↔ ∃ l, t.resolve p = .ok l ∧ t.node? l = some .directory := by
  unfold isDirectory
  cases t.resolve p with
  | error e => simp
  | ok l => simp

theorem Extends.isDirectory (h : Extends t t') (hd : t.isDirectory p = true) : t'.isDirectory p = true := by
  obtain ⟨l, hl, hd⟩ := isDirectory_iff.1 hd
  exact isDirectory_iff.2 ⟨l, h.resolve hl, h.directory l hd⟩

theorem isDirectory_of_makeDirectory (h : t.makeDirectory p = (.ok (), t')) : t'.isDirectory p = true := by
  rcases makeDirectory_cases t p with ⟨e, hmake⟩ | ⟨l, hmake, hl, -, hr⟩
  · rw [h] at hmake
    cases hmake
  · rw [h] at hmake
    cases hmake
    exact isDirectory_iff.2 ⟨l, hr, node?_put_self t hl _⟩

/-- A refusal that is overlooked where the directory is there. -/
theorem isDirectory_of_overlooked {e : FileError}
    (h : ((do return if ← host.isDirectory p then .ok () else .error e) :
      StateM FileTree (Except FileError Unit)).run t = (.ok (), t')) : t'.isDirectory p = true := by
  change (if t.isDirectory p = true then Except.ok () else .error e, t) = (Except.ok (), t') at h
  split at h
  · cases h
    assumption
  · cases h

theorem isDirectory_of_ensureDirectory (h : (host.ensureDirectory p).run t = (.ok (), t')) :
    t'.isDirectory p = true := by
  have hmake : (host.makeDirectory p).run t = t.makeDirectory p := rfl
  rw [Host.ensureDirectory, run_bind, hmake] at h
  rcases hm : t.makeDirectory p with ⟨e | _, t₁⟩
  · rw [hm] at h
    exact isDirectory_of_overlooked h
  · rw [hm] at h
    cases h
    exact isDirectory_of_makeDirectory hm

/-- Of directories that could be made the nearest is there. -/
theorem isDirectory_of_makeDirectories {above : List Path}
    (h : (host.makeDirectories (p :: above)).run t = (.ok (), t')) : t'.isDirectory p = true := by
  have hmake : (host.makeDirectory p).run t = t.makeDirectory p := rfl
  rw [Host.makeDirectories, run_bind, hmake] at h
  rcases hm : t.makeDirectory p with ⟨e | _, t₁⟩
  · rw [hm] at h
    dsimp only at h
    split at h
    · rename_i heq
      cases heq
    · rw [run_bind] at h
      rcases ha : (host.makeDirectories above).run t₁ with ⟨e | _, t₂⟩
      · rw [ha] at h
        cases h
      · rw [ha] at h
        exact isDirectory_of_ensureDirectory h
    · exact isDirectory_of_overlooked h
  · rw [hm] at h
    cases h
    exact isDirectory_of_makeDirectory hm

/-- Where the nearest directory is there, none is made. -/
theorem makeDirectories_of_isDirectory {above : List Path} (h : t.isDirectory p = true) :
    (host.makeDirectories (p :: above)).run t = (.ok (), t) := by
  obtain ⟨l, hl, -⟩ := isDirectory_iff.1 h
  have hmake : (host.makeDirectory p).run t = (.error .alreadyExists, t) := makeDirectory_of_resolve hl
  rw [Host.makeDirectories, run_bind, hmake]
  show (if t.isDirectory p = true then Except.ok () else .error FileError.alreadyExists, t) = (Except.ok (), t)
  rw [if_pos h]

/-- Once directories could be made, they need not be made in any later tree. -/
theorem makeDirectories_again {ps : List Path} {t₁ : FileTree} (h : (host.makeDirectories ps).run t = (.ok (), t₁))
    (hext : Extends t₁ t') : (host.makeDirectories ps).run t' = (.ok (), t') := by
  cases ps with
  | nil => rfl
  | cons p above => exact makeDirectories_of_isDirectory (hext.isDirectory (isDirectory_of_makeDirectories h))

/-! ## Files -/

theorem write_eq_ok_iff : t.write p data = (.ok (), t') ↔
    ∃ within name, t.slot p = .ok (.entry within name) ∧ p.getLast? ≠ some Path.slash ∧ name.length ≤ nameLimit ∧
      t.node? (within ++ [name]) ≠ some .directory ∧ t' = t.put (within ++ [name]) (.file data) := by
  unfold write
  constructor
  · intro h
    split at h
    · cases h
    · cases h
    · rename_i within name hs
      split at h
      · cases h
      split at h
      · cases h
      split at h
      · cases h
      · rename_i hend hlen hd
        cases h
        exact ⟨within, name, hs, hend, by omega, hd, rfl⟩
  · intro hx
    obtain ⟨within, name, hs, hend, hlen, hd, rfl⟩ := hx
    rw [hs]
    dsimp only
    rw [if_neg hend, if_neg (by omega), if_neg hd]

theorem write_again (h : t.write p data = (.ok (), t')) : Extends t t' ∧ t'.write p data = (.ok (), t') := by
  obtain ⟨within, name, hs, hend, hlen, hd, rfl⟩ := write_eq_ok_iff.1 h
  have hne : within ++ [name] ≠ [] := by simp
  have hext := extends_put t hne (n := .file data) fun h => absurd h hd
  refine ⟨hext, write_eq_ok_iff.2 ⟨within, name, hext.slot hs, hend, hlen, ?_, ?_⟩⟩
  · rw [node?_put_self t hne]
    simp
  · exact (put_put t _ _).symm

theorem store_eq_ok_iff : (host.store p data).run t = (.ok (), t') ↔
    ∃ t₁, (host.makeDirectories p.parents).run t = (.ok (), t₁) ∧ t₁.write p data = (.ok (), t') := by
  rw [Host.store, run_bind]
  rcases (host.makeDirectories p.parents).run t with ⟨e | _, t₁⟩
  · constructor
    · intro h
      cases h
    · intro hx
      obtain ⟨t₂, hm, -⟩ := hx
      cases hm
  · constructor
    · intro h
      exact ⟨t₁, rfl, h⟩
    · intro hx
      obtain ⟨t₂, hm, hw⟩ := hx
      cases hm
      exact hw

/-- Storing a file once more changes nothing. -/
theorem store_again (h : (host.store p data).run t = (.ok (), t')) :
    (host.store p data).run t' = (.ok (), t') := by
  obtain ⟨t₁, hm, hw⟩ := store_eq_ok_iff.1 h
  obtain ⟨hext, hagain⟩ := write_again hw
  exact store_eq_ok_iff.2 ⟨t', makeDirectories_again hm hext, hagain⟩

/-! ## Other files -/

/-- The two paths name the same. -/
def SameFile (t : FileTree) (p q : Path) : Prop := ∃ l, t.resolve p = .ok l ∧ t.resolve q = .ok l

theorem Stored.extends (h : Stored p data l t t') : Extends t t' := by
  refine ⟨h.workdir, h.keeps, fun k hk => ?_⟩
  by_cases hkl : k = l
  · rw [hkl, h.data_at]
    rfl
  obtain ⟨n, hn⟩ := Option.isSome_iff_exists.1 hk
  cases n with
  | directory =>
    rw [h.keeps k hn]
    rfl
  | file b =>
    rw [(h.file_iff k hkl b).2 hn]
    rfl

/-- What could be read from another file still can. -/
theorem Stored.read {b : Bytes} (h : Stored p data l t t') (hr : t.read q = .ok b) (hne : ¬t'.SameFile p q) :
    t'.read q = .ok b := by
  obtain ⟨k, hk, hnode⟩ := read_eq_ok_iff.1 hr
  have hk' := h.extends.resolve hk
  have hkl : k ≠ l := by
    intro heq
    exact hne ⟨l, h.resolve, heq ▸ hk'⟩
  exact read_eq_ok_iff.2 ⟨k, hk', (h.file_iff k hkl b).2 hnode⟩

/-- From the file that was stored the new contents are read, by whatever path. -/
theorem Stored.read_of_sameFile (h : Stored p data l t t') (hsame : t'.SameFile p q) : t'.read q = .ok data := by
  obtain ⟨k, hp, hq⟩ := hsame
  rw [h.resolve] at hp
  cases hp
  exact read_eq_ok_iff.2 ⟨l, hq, h.data_at⟩

end Polyglot.FileTree
