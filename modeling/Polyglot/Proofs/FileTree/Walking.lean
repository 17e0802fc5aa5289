/-
  Polyglot.Proofs.FileTree.Walking — where paths lead, and that they still lead there
  when a tree grows.

  `Extends` is all that a walk needs of a later tree: what was there is there, and what
  was a directory is one. `Extends.resolve`: a path that named something still names it.
  `resolve_put`: a path names what is made at the end of its way.
-/

import Polyglot.FileTree
import Polyglot.Proofs.Except
import Polyglot.Proofs.Path

namespace Polyglot.FileTree

/-! ## Entries -/

theorem lookup_filter_ne {l k : Location} (h : k ≠ l) (es : List (Location × Node)) :
    (es.filter (·.1 != l)).lookup k = es.lookup k := by
  induction es with
  | nil => rfl
  | cons e es ih =>
    obtain ⟨m, n⟩ := e
    by_cases hm : m = l
    · have hk : (k == m) = false := by simpa [hm] using h
      simp only [hm, bne_self_eq_false, List.filter_cons, Bool.false_eq_true, if_false, ih]
      rw [List.lookup_cons, ← hm, hk]
    · simp [hm, List.lookup_cons, ih]

theorem node?_put_self (t : FileTree) {l : Location} (hl : l ≠ []) (n : Node) : (t.put l n).node? l = some n := by
  simp [node?, put, hl]

theorem node?_put_ne (t : FileTree) {l k : Location} (h : k ≠ l) (n : Node) : (t.put l n).node? k = t.node? k := by
  have hb : (k == l) = false := by simpa using h
  simp [node?, put, List.lookup_cons, hb, lookup_filter_ne h]

/-! ## Later trees -/

/-- `t'` has the directories of `t`, and something wherever `t` has something. -/
structure Extends (t t' : FileTree) : Prop where
  workdir : t'.workdir = t.workdir
  directory : ∀ l, t.node? l = some .directory → t'.node? l = some .directory
  isSome : ∀ l, (t.node? l).isSome → (t'.node? l).isSome

theorem extends_put (t : FileTree) {l : Location} (hl : l ≠ []) {n : Node}
    (h : t.node? l = some .directory → n = .directory) : Extends t (t.put l n) := by
  refine ⟨rfl, ?_, ?_⟩
  · intro k hk
    by_cases hkl : k = l
    · subst hkl
      rw [node?_put_self t hl, h hk]
    · rw [node?_put_ne t hkl, hk]
  · intro k hk
    by_cases hkl : k = l
    · subst hkl
      rw [node?_put_self t hl]
      rfl
    · rwa [node?_put_ne t hkl]

/-! ## Walking -/

theorem step_eq_ok_iff {t : FileTree} {l l' : Location} {part : Bytes} :
    t.step l part = .ok l' ↔
      t.node? l = some .directory ∧
        (Path.isIdle part = true ∧ l' = l ∨
          Path.isIdle part = false ∧ part = Path.above ∧ l' = l.dropLast ∨
          Path.isIdle part = false ∧ part ≠ Path.above ∧ part.length ≤ nameLimit ∧
            (t.node? (l ++ [part])).isSome = true ∧ l' = l ++ [part]) := by
  unfold step
  by_cases hd : t.node? l = some .directory
  · by_cases hi : Path.isIdle part = true
    · simp [hd, hi, @eq_comm _ l']
    by_cases ha : part = Path.above
    · subst ha
      simp [hd, hi, @eq_comm _ l']
    by_cases hn : nameLimit < part.length
    · have hn' : ¬ part.length ≤ nameLimit := by omega
      simp [hd, hi, ha, hn, hn']
    have hn' : part.length ≤ nameLimit := by omega
    cases hs : t.node? (l ++ [part]) with
    | none => simp [hd, hi, ha, hn]
    | some n =>
      simp [hd, hi, ha, hn, hn', @eq_comm _ l']
  · simp [hd]

theorem Extends.step {t t' : FileTree} (h : Extends t t') {l l' : Location} {part : Bytes}
    (hs : t.step l part = .ok l') : t'.step l part = .ok l' := by
  rw [step_eq_ok_iff] at hs ⊢
  obtain ⟨hd, hs⟩ := hs
  refine ⟨h.directory l hd, ?_⟩
  rcases hs with hs | hs | ⟨hi, ha, hn, hsome, rfl⟩
  · exact Or.inl hs
  · exact Or.inr (Or.inl hs)
  · exact Or.inr (Or.inr ⟨hi, ha, hn, h.isSome _ hsome, rfl⟩)

theorem Extends.foldlM_step {t t' : FileTree} (h : Extends t t') {parts : List Bytes} {l l' : Location}
    (hw : parts.foldlM t.step l = .ok l') : parts.foldlM t'.step l = .ok l' := by
  induction parts generalizing l with
  | nil => exact hw
  | cons part parts ih =>
    rw [List.foldlM_cons, bind_eq_ok_iff] at hw ⊢
    obtain ⟨m, hm, hw⟩ := hw
    exact ⟨m, h.step hm, ih hw⟩

theorem walk_eq_ok_iff {t : FileTree} {p : Path} {parts : List Bytes} {l : Location} :
    t.walk p parts = .ok l ↔ p ≠ [] ∧ p.length < pathLimit ∧ parts.foldlM t.step (t.startOf p) = .ok l := by
  unfold walk
  split
  · simp [*]
  · split
    · simp only [reduceCtorEq, false_iff]
      intro hl
      omega
    · simp only [ne_eq, *, not_false_eq_true, true_and, iff_and_self]
      omega

theorem Extends.startOf {t t' : FileTree} (h : Extends t t') (p : Path) : t'.startOf p = t.startOf p := by
  simp only [FileTree.startOf, h.workdir]

theorem Extends.walk {t t' : FileTree} (h : Extends t t') {p : Path} {parts : List Bytes} {l : Location}
    (hw : t.walk p parts = .ok l) : t'.walk p parts = .ok l := by
  rw [walk_eq_ok_iff] at hw ⊢
  exact ⟨hw.1, hw.2.1, h.startOf p ▸ h.foldlM_step hw.2.2⟩

/-- What a path names, it still names. -/
theorem Extends.resolve {t t' : FileTree} (h : Extends t t') {p : Path} {l : Location} (hr : t.resolve p = .ok l) :
    t'.resolve p = .ok l := h.walk hr

/-! ## What is made at the end of a way -/

/-- The way to a slot goes through all parts before the name; after the name come only empty ones. -/
theorem of_slot_eq_entry {t : FileTree} {p : Path} {within : Location} {name : Bytes}
    (h : t.slot p = .ok (.entry within name)) :
    ∃ way blanks, p.parts = way ++ name :: blanks ∧ (∀ part ∈ blanks, part = []) ∧
      (p.getLast? ≠ some Path.slash → blanks = []) ∧ t.walk p way = .ok within ∧
      t.node? within = some .directory ∧ Path.isIdle name = false ∧ name ≠ Path.above := by
  unfold slot at h
  split at h
  · cases hw : t.walk p [] <;> rw [hw] at h <;> cases h
  rename_i name' way hway
  obtain ⟨within', hw, h⟩ := bind_eq_ok_iff.1 h
  split at h
  · cases h
  rename_i hd
  split at h
  · cases h
  rename_i hname
  cases h
  obtain ⟨blanks, hparts, hblank, hne, hend⟩ := Path.parts_of_dropWhile hway
  have hidle : Path.isIdle name = false := by simp [Path.isIdle, hne, (not_or.1 hname).1]
  exact ⟨way.reverse, blanks, hparts, hblank, hend, hw, Decidable.not_not.1 hd, hidle, (not_or.1 hname).2⟩

theorem foldlM_step_blank {t : FileTree} {l : Location} (hd : t.node? l = some .directory) {blanks : List Bytes}
    (h : ∀ part ∈ blanks, part = []) : blanks.foldlM t.step l = .ok l := by
  induction blanks with
  | nil => rfl
  | cons part blanks ih =>
    have hs : t.step l part = .ok l := by
      rw [step_eq_ok_iff, h part (by simp)]
      exact ⟨hd, Or.inl ⟨rfl, rfl⟩⟩
    rw [List.foldlM_cons, hs]
    exact ih fun part hpart => h part (by simp [hpart])

/-- A path names what is put into its slot: a directory, or a file if no slash follows its name. -/
theorem resolve_put {t : FileTree} {p : Path} {within : Location} {name : Bytes} {n : Node}
    (h : t.slot p = .ok (.entry within name)) (hlen : name.length ≤ nameLimit)
    (hn : t.node? (within ++ [name]) = some .directory → n = .directory)
    (hend : n = .directory ∨ p.getLast? ≠ some Path.slash) :
    (t.put (within ++ [name]) n).resolve p = .ok (within ++ [name]) := by
  obtain ⟨way, blanks, hparts, hblank, hslash, hw, hd, hidle, habove⟩ := of_slot_eq_entry h
  have hne : within ++ [name] ≠ [] := by simp
  have hext := extends_put t hne hn
  have hput := node?_put_self t hne n
  have hstep : (t.put (within ++ [name]) n).step within name = .ok (within ++ [name]) :=
    step_eq_ok_iff.2 ⟨hext.directory _ hd, Or.inr (Or.inr ⟨hidle, habove, hlen, by rw [hput]; rfl, rfl⟩)⟩
  have hblanks : blanks.foldlM (t.put (within ++ [name]) n).step (within ++ [name]) = .ok (within ++ [name]) := by
    rcases hend with rfl | hend
    · exact foldlM_step_blank hput hblank
    · rw [hslash hend]
      rfl
  rw [walk_eq_ok_iff] at hw
  refine walk_eq_ok_iff.2 ⟨hw.1, hw.2.1, ?_⟩
  rw [hparts, List.foldlM_append, bind_eq_ok_iff]
  refine ⟨within, hext.startOf p ▸ hext.foldlM_step hw.2.2, ?_⟩
  rw [List.foldlM_cons, bind_eq_ok_iff]
  exact ⟨_, hstep, hblanks⟩

end Polyglot.FileTree
