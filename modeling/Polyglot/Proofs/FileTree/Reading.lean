/-
  Polyglot.Proofs.FileTree.Reading — what can be read from the files of a tree.

  `text?` is what the file that a path names holds, if it holds a text.
-/

import Polyglot.Proofs.FileTree.Walking
import Polyglot.Text.Utf8.Lemmas

namespace Polyglot.FileTree

variable {t t' : FileTree} {p : Path} {l : Location} {data : Bytes}

theorem pathExists_iff : t.pathExists p = true ↔ ∃ l, t.resolve p = .ok l := by
  unfold pathExists
  cases t.resolve p with
  | error e => simp [Except.isOk, Except.toBool]
  | ok l => simp [Except.isOk, Except.toBool]

theorem read_eq_ok_iff : t.read p = .ok data ↔ ∃ l, t.resolve p = .ok l ∧ t.node? l = some (.file data) := by
  unfold read
  rw [bind_eq_ok_iff]
  refine exists_congr fun l => and_congr_right fun _ => ?_
  split
  · rename_i data' hnode
    rw [hnode]
    simp [pure, Except.pure]
  · rename_i hnode
    constructor
    · intro h
      cases h
    · intro h
      exact absurd h (hnode data)

theorem pathExists_of_read (h : t.read p = .ok data) : t.pathExists p = true := by
  obtain ⟨l, hl, -⟩ := read_eq_ok_iff.1 h
  exact pathExists_iff.2 ⟨l, hl⟩

/-- What the file that a path names holds, if there is one and it holds a text. -/
def text? (t : FileTree) (p : Path) : Option Text :=
  match t.read p with
  | .ok data => (Utf8.decode data).toOption
  | .error _ => none

theorem text?_eq_some_iff {text : Text} : t.text? p = some text ↔ t.read p = .ok (Utf8.encode text) := by
  unfold text?
  cases t.read p with
  | error e => simp
  | ok data =>
    dsimp only
    rw [Except.ok.injEq, ← Utf8.decode_eq_ok_iff]
    cases hd : Utf8.decode data with
    | error e => simp [Except.toOption]
    | ok text' => simp [Except.toOption]

theorem isSome_text?_iff : (t.text? p).isSome = true ↔
    ∃ l text, t.resolve p = .ok l ∧ t.node? l = some (.file (Utf8.encode text)) := by
  rw [Option.isSome_iff_exists]
  simp only [text?_eq_some_iff, read_eq_ok_iff]
  exact exists_comm

theorem pathExists_of_text? {text : Text} (h : t.text? p = some text) : t.pathExists p = true :=
  pathExists_of_read (text?_eq_some_iff.1 h)

theorem text?_eq_none_of_error {e : FileError} (h : t.read p = .error e) : t.text? p = none := by
  unfold text?
  rw [h]

theorem text?_eq_none_of_decode {e : Utf8.DecodeError} (h : t.read p = .ok data)
    (hd : Utf8.decode data = .error e) : t.text? p = none := by
  unfold text?
  rw [h]
  dsimp only
  rw [hd]
  rfl

end Polyglot.FileTree
