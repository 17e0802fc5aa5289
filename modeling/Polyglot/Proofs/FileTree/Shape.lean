/-
  Polyglot.Proofs.FileTree.Shape — trees that differ only in what is in their files.

  A path leads the same way in both (`SameShape.resolve`, `SameShape.slot`), so storing a
  file gives the same answer in both, whatever is stored (`agree_store`). What files
  hold never decides whether another one can be written.
-/

import Polyglot.Proofs.FileTree.Storing

namespace Polyglot.FileTree

variable {t t' : FileTree} {p : Path} {l : Location}

/-- `t'` has the directories and the files of `t`, with anything in the files. -/
structure SameShape (t t' : FileTree) : Prop where
  workdir : t'.workdir = t.workdir
  directory_iff : ∀ l, t'.node? l = some .directory ↔ t.node? l = some .directory
  isSome : ∀ l, (t'.node? l).isSome = (t.node? l).isSome

namespace SameShape

theorem put (h : SameShape t t') (hl : l ≠ []) {n n' : Node} (hn : n' = .directory ↔ n = .directory) :
    SameShape (t.put l n) (t'.put l n') := by
  refine ⟨h.workdir, ?_, ?_⟩
  · intro k
    by_cases hkl : k = l
    · subst hkl
      rw [node?_put_self t hl, node?_put_self t' hl, Option.some.injEq, Option.some.injEq]
      exact hn
    · rw [node?_put_ne t hkl, node?_put_ne t' hkl]
      exact h.directory_iff k
  · intro k
    by_cases hkl : k = l
    · subst hkl
      rw [node?_put_self t hl, node?_put_self t' hl]
      rfl
    · rw [node?_put_ne t hkl, node?_put_ne t' hkl]
      exact h.isSome k

/-! ## Paths -/

theorem step (h : SameShape t t') : t'.step = t.step := by
  funext l part
  have hnone : (t'.node? (l ++ [part])).isNone = (t.node? (l ++ [part])).isNone := by
    rw [← Option.not_isSome, ← Option.not_isSome, h.isSome]
  unfold FileTree.step
  simp only [ne_eq, h.directory_iff, hnone]

theorem walk (h : SameShape t t') : t'.walk = t.walk := by
  funext p parts
  unfold FileTree.walk FileTree.startOf
  rw [h.step, h.workdir]

theorem resolve (h : SameShape t t') (p : Path) : t'.resolve p = t.resolve p := by
  unfold FileTree.resolve
  rw [h.walk]

theorem pathExists (h : SameShape t t') (p : Path) : t'.pathExists p = t.pathExists p := by
  unfold FileTree.pathExists
  rw [h.resolve]

theorem isDirectory (h : SameShape t t') (p : Path) : t'.isDirectory p = t.isDirectory p := by
  unfold FileTree.isDirectory
  rw [h.resolve]
  cases t.resolve p with
  | error e => rfl
  | ok l =>
    rw [Bool.eq_iff_iff, beq_iff_eq, beq_iff_eq]
    exact h.directory_iff l

theorem slot (h : SameShape t t') (p : Path) : t'.slot p = t.slot p := by
  unfold FileTree.slot
  simp only [h.walk, ne_eq, h.directory_iff]

end SameShape

/-! ## Operations -/

/-- On trees of the same shape the two give the same answer, and they leave such trees. -/
def Agree {α : Type} (x x' : StateM FileTree α) : Prop :=
  ∀ t t', SameShape t t' → (x'.run t').1 = (x.run t).1 ∧ SameShape (x.run t).2 (x'.run t').2

theorem Agree.pure {α : Type} (a : α) : Agree (Pure.pure a) (Pure.pure a) := fun _ _ h => ⟨rfl, h⟩

theorem Agree.bind {α β : Type} {x x' : StateM FileTree α} {f f' : α → StateM FileTree β} (hx : Agree x x')
    (hf : ∀ a, Agree (f a) (f' a)) : Agree (x >>= f) (x' >>= f') := by
  intro t t' h
  obtain ⟨hanswer, hshape⟩ := hx t t' h
  rw [run_bind, run_bind, hanswer]
  exact hf _ _ _ hshape

theorem agree_isDirectory (p : Path) : Agree (host.isDirectory p) (host.isDirectory p) :=
  fun _ _ h => ⟨h.isDirectory p, h⟩

theorem agree_makeDirectory (p : Path) : Agree (host.makeDirectory p) (host.makeDirectory p) := by
  intro t t' h
  show (t'.makeDirectory p).1 = (t.makeDirectory p).1 ∧ SameShape (t.makeDirectory p).2 (t'.makeDirectory p).2
  unfold makeDirectory
  rw [h.slot]
  rcases t.slot p with e | (_ | ⟨within, name⟩)
  · exact ⟨rfl, h⟩
  · exact ⟨rfl, h⟩
  · dsimp only
    rw [h.isSome]
    split
    · exact ⟨rfl, h⟩
    split
    · exact ⟨rfl, h⟩
    · exact ⟨rfl, h.put (by simp) Iff.rfl⟩

theorem agree_write (p : Path) (data data' : Bytes) : Agree (host.write p data) (host.write p data') := by
  intro t t' h
  show (t'.write p data').1 = (t.write p data).1 ∧ SameShape (t.write p data).2 (t'.write p data').2
  unfold write
  rw [h.slot]
  rcases t.slot p with e | (_ | ⟨within, name⟩)
  · exact ⟨rfl, h⟩
  · exact ⟨rfl, h⟩
  · simp only [h.directory_iff]
    split
    · exact ⟨rfl, h⟩
    split
    · exact ⟨rfl, h⟩
    split
    · exact ⟨rfl, h⟩
    · exact ⟨rfl, h.put (by simp) (by simp)⟩

theorem agree_ensureDirectory (p : Path) : Agree (host.ensureDirectory p) (host.ensureDirectory p) := by
  unfold Host.ensureDirectory
  apply (agree_makeDirectory p).bind
  intro answer
  cases answer with
  | ok _ => exact .pure _
  | error e => exact (agree_isDirectory p).bind fun _ => .pure _

theorem agree_makeDirectories (ps : List Path) : Agree (host.makeDirectories ps) (host.makeDirectories ps) := by
  induction ps with
  | nil => exact .pure _
  | cons p above ih =>
    unfold Host.makeDirectories
    apply (agree_makeDirectory p).bind
    intro answer
    split
    · exact .pure _
    · apply ih.bind
      intro answer
      cases answer with
      | ok _ => exact agree_ensureDirectory p
      | error e => exact .pure _
    · exact (agree_isDirectory p).bind fun _ => .pure _

theorem agree_store (p : Path) (data data' : Bytes) : Agree (host.store p data) (host.store p data') := by
  unfold Host.store
  apply (agree_makeDirectories p.parents).bind
  intro answer
  cases answer with
  | ok _ => exact agree_write p data data'
  | error e => exact .pure _

end Polyglot.FileTree
