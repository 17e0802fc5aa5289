/-
  Polyglot.Proofs.FileTree.Storing — what making directories and writing a file leave
  behind.

  `Grown`: a tree after directories were made, whether all of them could be made or not.
  `Stored`: a tree after a file was written, which is the tree before but for that file
  and directories on the way to it.
-/

import Polyglot.Proofs.FileTree.Walking

namespace Polyglot.FileTree

/-! ## One directory -/

/-- `t'` has what `t` has, and besides only directories, each named by one of `ps`. -/
structure Grown (ps : List Path) (t t' : FileTree) : Prop where
  workdir : t'.workdir = t.workdir
  keeps : ∀ l n, t.node? l = some n → t'.node? l = some n
  made : ∀ l n, t'.node? l = some n → t.node? l = some n ∨ n = .directory ∧ ∃ q ∈ ps, t'.resolve q = .ok l

theorem Grown.extends {ps : List Path} {t t' : FileTree} (h : Grown ps t t') : Extends t t' := by
  refine ⟨h.workdir, fun l hl => h.keeps l _ hl, fun l hl => ?_⟩
  obtain ⟨n, hn⟩ := Option.isSome_iff_exists.1 hl
  rw [h.keeps l n hn]
  rfl

theorem Grown.refl (ps : List Path) (t : FileTree) : Grown ps t t := ⟨rfl, fun _ _ h => h, fun _ _ h => Or.inl h⟩

theorem Grown.trans {ps : List Path} {t t' t'' : FileTree} (h : Grown ps t t') (h' : Grown ps t' t'') :
    Grown ps t t'' := by
  refine ⟨h'.workdir.trans h.workdir, fun l n hn => h'.keeps l n (h.keeps l n hn), ?_⟩
  intro l n hn
  rcases h'.made l n hn with hn | hn
  · rcases h.made l n hn with hn | ⟨hd, q, hq, hr⟩
    · exact Or.inl hn
    · exact Or.inr ⟨hd, q, hq, h'.extends.resolve hr⟩
  · exact Or.inr hn

theorem Grown.mono {ps qs : List Path} {t t' : FileTree} (h : Grown ps t t') (hs : ∀ q ∈ ps, q ∈ qs) :
    Grown qs t t' := by
  refine ⟨h.workdir, h.keeps, fun l n hn => ?_⟩
  rcases h.made l n hn with hn | ⟨hd, q, hq, hr⟩
  · exact Or.inl hn
  · exact Or.inr ⟨hd, q, hs q hq, hr⟩

/-- Making a directory fails and changes nothing, or makes one entry where there was none. -/
theorem makeDirectory_cases (t : FileTree) (p : Path) :
    (∃ e, t.makeDirectory p = (.error e, t)) ∨
      ∃ l, t.makeDirectory p = (.ok (), t.put l .directory) ∧ l ≠ [] ∧ t.node? l = none ∧
        (t.put l .directory).resolve p = .ok l := by
  unfold makeDirectory
  cases hs : t.slot p with
  | error e => exact Or.inl ⟨e, rfl⟩
  | ok slot =>
    cases slot with
    | directory => exact Or.inl ⟨_, rfl⟩
    | entry within name =>
      by_cases hlen : nameLimit < name.length
      · exact Or.inl ⟨.nameTooLong, by simp only [hlen, if_true]⟩
      cases hn : t.node? (within ++ [name]) with
      | some n => exact Or.inl ⟨.alreadyExists, by simp [hlen, hn]⟩
      | none =>
        refine Or.inr ⟨within ++ [name], by simp [hlen, hn], by simp, hn, ?_⟩
        exact resolve_put hs (by omega) (fun _ => rfl) (Or.inl rfl)

theorem grown_makeDirectory (t : FileTree) (p : Path) : Grown [p] t (t.makeDirectory p).2 := by
  rcases makeDirectory_cases t p with ⟨e, h⟩ | ⟨l, h, hl, hnone, hr⟩
  · rw [h]
    exact .refl _ _
  · rw [h]
    refine ⟨rfl, ?_, ?_⟩
    · intro k n hk
      have hne : k ≠ l := by intro hkl; rw [hkl, hnone] at hk; cases hk
      rw [node?_put_ne t hne, hk]
    · intro k n hk
      by_cases hkl : k = l
      · subst hkl
        rw [node?_put_self t hl] at hk
        cases hk
        exact Or.inr ⟨rfl, p, by simp, hr⟩
      · rw [node?_put_ne t hkl] at hk
        exact Or.inl hk

/-! ## Directories on a way -/

/-- Whatever tree `x` starts from, it only makes directories named by `ps`. -/
def Grows (ps : List Path) {α : Type} (x : StateM FileTree α) : Prop := ∀ t, Grown ps t (x.run t).2

theorem run_bind {α β : Type} (x : StateM FileTree α) (f : α → StateM FileTree β) (t : FileTree) :
    (x >>= f).run t = (f (x.run t).1).run (x.run t).2 := rfl

theorem Grows.pure {ps : List Path} {α : Type} (a : α) : Grows ps (Pure.pure a) := fun t => .refl ps t

theorem Grows.bind {ps : List Path} {α β : Type} {x : StateM FileTree α} {f : α → StateM FileTree β}
    (hx : Grows ps x) (hf : ∀ a, Grows ps (f a)) : Grows ps (x >>= f) :=
  fun t => (hx t).trans (hf _ _)

theorem Grows.mono {ps qs : List Path} {α : Type} {x : StateM FileTree α} (h : Grows ps x) (hs : ∀ q ∈ ps, q ∈ qs) :
    Grows qs x := fun t => (h t).mono hs

theorem grows_isDirectory (ps : List Path) (p : Path) : Grows ps (host.isDirectory p) := fun t => .refl ps t

theorem grows_makeDirectory (p : Path) : Grows [p] (host.makeDirectory p) := fun t => grown_makeDirectory t p

theorem grows_ensureDirectory (p : Path) : Grows [p] (host.ensureDirectory p) := by
  unfold Host.ensureDirectory
  apply (grows_makeDirectory p).bind
  intro answer
  cases answer with
  | ok _ => exact .pure _
  | error e => exact (grows_isDirectory _ p).bind fun _ => .pure _

theorem grows_makeDirectories (ps : List Path) : Grows ps (host.makeDirectories ps) := by
  induction ps with
  | nil => exact .pure _
  | cons p above ih =>
    unfold Host.makeDirectories
    apply ((grows_makeDirectory p).mono (by simp)).bind
    intro answer
    split
    · exact .pure _
    · apply (ih.mono fun q hq => List.mem_cons_of_mem p hq).bind
      intro answer
      cases answer with
      | ok _ => exact (grows_ensureDirectory p).mono (by simp)
      | error e => exact .pure _
    · exact (grows_isDirectory _ p).bind fun _ => .pure _

/-! ## One file -/

/-- Writing fails and changes nothing, or makes or replaces one entry that is no directory. -/
theorem write_cases (t : FileTree) (p : Path) (data : Bytes) :
    (∃ e, t.write p data = (.error e, t)) ∨
      ∃ l, t.write p data = (.ok (), t.put l (.file data)) ∧ l ≠ [] ∧ t.node? l ≠ some .directory ∧
        (t.put l (.file data)).resolve p = .ok l := by
  unfold write
  cases hs : t.slot p with
  | error e => exact Or.inl ⟨e, rfl⟩
  | ok slot =>
    cases slot with
    | directory => exact Or.inl ⟨_, rfl⟩
    | entry within name =>
      by_cases hend : p.getLast? = some Path.slash
      · exact Or.inl ⟨.isADirectory, by simp only [hend, if_true]⟩
      by_cases hlen : nameLimit < name.length
      · exact Or.inl ⟨.nameTooLong, by simp only [hend, hlen, if_true, if_false]⟩
      by_cases hd : t.node? (within ++ [name]) = some .directory
      · exact Or.inl ⟨.isADirectory, by simp only [hend, hlen, hd, if_true, if_false]⟩
      · refine Or.inr ⟨within ++ [name], by simp only [hend, hlen, hd, if_false], by simp, hd, ?_⟩
        exact resolve_put hs (by omega) (fun h => absurd h hd) (Or.inr hend)

/-- `t'` is `t` with `data` in the file at `l`, which `p` names, and with directories on the way to
    it that `t` had not. -/
structure Stored (p : Path) (data : Bytes) (l : Location) (t t' : FileTree) : Prop where
  workdir : t'.workdir = t.workdir
  resolve : t'.resolve p = .ok l
  data_at : t'.node? l = some (.file data)
  not_directory : t.node? l ≠ some .directory
  file_iff : ∀ k ≠ l, ∀ b, t'.node? k = some (.file b) ↔ t.node? k = some (.file b)
  keeps : ∀ k, t.node? k = some .directory → t'.node? k = some .directory
  made : ∀ k, t'.node? k = some .directory → t.node? k = some .directory ∨
    ∃ parent q, p.parents.head? = some parent ∧ q ∈ p.parents ∧ q <+: parent ∧ t'.resolve q = .ok k

theorem stored_put {p : Path} {data : Bytes} {l : Location} {t t₁ : FileTree} (hg : Grown p.parents t t₁) (hl : l ≠ [])
    (hd : t₁.node? l ≠ some .directory) (hr : (t₁.put l (.file data)).resolve p = .ok l) :
    Stored p data l t (t₁.put l (.file data)) where
  workdir := hg.workdir
  resolve := hr
  data_at := node?_put_self t₁ hl _
  not_directory h := hd (hg.keeps l _ h)
  file_iff k hk b := by
    rw [node?_put_ne t₁ hk]
    refine ⟨?_, hg.keeps k _⟩
    intro h
    rcases hg.made k _ h with h | ⟨h, -⟩
    · exact h
    · cases h
  keeps k hk := by
    have hk₁ := hg.keeps k _ hk
    have hkl : k ≠ l := by intro h; subst h; exact hd hk₁
    rw [node?_put_ne t₁ hkl]
    exact hk₁
  made k hk := by
    by_cases hkl : k = l
    · subst hkl
      rw [node?_put_self t₁ hl] at hk
      cases hk
    rw [node?_put_ne t₁ hkl] at hk
    rcases hg.made k _ hk with hk | ⟨-, q, hq, hqk⟩
    · exact Or.inl hk
    · obtain ⟨parent, hparent, hprefix⟩ := Path.isPrefix_parent hq
      have hext := extends_put t₁ hl (n := .file data) fun h => absurd h hd
      exact Or.inr ⟨parent, q, hparent, hq, hprefix, hext.resolve hqk⟩

/-- Storing a file that fails only makes directories on the way to it. -/
theorem store_cases (t : FileTree) (p : Path) (data : Bytes) :
    (∃ e t', (host.store p data).run t = (.error e, t') ∧ Grown p.parents t t') ∨
      ∃ l t', (host.store p data).run t = (.ok (), t') ∧ Stored p data l t t' := by
  have hg := grows_makeDirectories p.parents t
  rw [Host.store, run_bind]
  cases hm : (host.makeDirectories p.parents).run t with
  | mk answer t₁ =>
    rw [hm] at hg
    cases answer with
    | error e => exact Or.inl ⟨e, t₁, rfl, hg⟩
    | ok _ =>
      rcases write_cases t₁ p data with ⟨e, hw⟩ | ⟨l, hw, hl, hd, hr⟩
      · exact Or.inl ⟨e, t₁, hw, hg⟩
      · exact Or.inr ⟨l, _, hw, stored_put hg hl hd hr⟩

theorem grown_of_store_error {t t' : FileTree} {p : Path} {data : Bytes} {e : FileError}
    (h : (host.store p data).run t = (.error e, t')) : Grown p.parents t t' := by
  rcases store_cases t p data with ⟨e', t'', hstore, hgrown⟩ | ⟨l, t'', hstore, -⟩
  · rw [h] at hstore
    cases hstore
    exact hgrown
  · rw [h] at hstore
    cases hstore

theorem stored_of_store {t t' : FileTree} {p : Path} {data : Bytes}
    (h : (host.store p data).run t = (.ok (), t')) : ∃ l, Stored p data l t t' := by
  rcases store_cases t p data with ⟨e, t'', hstore, -⟩ | ⟨l, t'', hstore, hstored⟩
  · rw [h] at hstore
    cases hstore
  · rw [h] at hstore
    cases hstore
    exact ⟨l, hstored⟩

end Polyglot.FileTree
