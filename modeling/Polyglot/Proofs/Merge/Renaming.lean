/-
  Polyglot.Proofs.Merge.Renaming — inputs under other paths.

  A merge sees no more of the path of an input than its language, and the language is that of
  the extension in lowered letters. So a path can be moved, written in another way or given
  another stem, and the letters of its extension can change their case: the merge stays the
  same, and which paths are of a language can be told from the bytes they end in
  (`roles_by_extension`).
-/

import Mathlib.Logic.Relation
import Polyglot.Proofs.Language
import Polyglot.Proofs.Merge.Diagnostics

namespace Polyglot

open Utf8 (encode lowerByte)

/-! ## Changes to a path -/

namespace Path

/-- One change to a path that leaves its extension as it is, but for the case of letters. -/
inductive Renaming : Path → Path → Prop
  /-- The last component is in another directory. -/
  | directory {dir dir' name tail : Bytes} : Leads dir → Leads dir' → IsComponent name → Trails tail →
      Renaming (dir ++ name ++ tail) (dir' ++ name ++ tail)
  | slash (p : Path) : Renaming p (p ++ [Path.slash])
  | here (p : Path) : Renaming p (p ++ Path.slash :: Path.here)
  | stem {dir stem stem' ext tail : Bytes} : Leads dir → Trails tail → IsStem stem → IsStem stem' →
      IsExtension ext → ext ≠ [] →
      Renaming (dir ++ (stem ++ dot :: ext) ++ tail) (dir ++ (stem' ++ dot :: ext) ++ tail)
  | letters {dir stem ext ext' tail : Bytes} : Leads dir → Trails tail → IsStem stem → IsExtension ext →
      ext.map lowerByte = ext'.map lowerByte →
      Renaming (dir ++ (stem ++ dot :: ext) ++ tail) (dir ++ (stem ++ dot :: ext') ++ tail)

/-- Any number of such changes, made or undone. -/
def Renamed : Path → Path → Prop := Relation.EqvGen Renaming

end Path

/-! ## The language -/

namespace Language

open Polyglot.Path

variable {p q : Path}

theorem ofPath_renaming (h : Renaming p q) : ofPath p = ofPath q := by
  cases h with
  | directory hdir hdir' hname htail => rw [ofPath_eq, ofPath_eq, extension?_directory hdir hdir' htail hname]
  | slash => rw [ofPath_eq, ofPath_eq, extension?_append_slash (.inl rfl)]
  | here => rw [ofPath_eq, ofPath_eq, extension?_append_slash (.inr rfl)]
  | stem hdir htail hstem hstem' hext hne =>
    rw [ofPath_eq, ofPath_eq, extension?_eq_some_iff.2 (hasExtension_append hdir htail hstem hext hne),
      extension?_eq_some_iff.2 (hasExtension_append hdir htail hstem' hext hne)]
  | @letters dir stem ext ext' tail hdir htail hstem hext hcase =>
    by_cases hne : ext = []
    · subst hne
      rw [List.map_eq_nil_iff.1 hcase.symm]
    · have hne' : ext' ≠ [] := by
        rintro rfl
        exact hne (List.map_eq_nil_iff.1 hcase)
      have hext' : IsExtension ext' :=
        ⟨Utf8.not_mem_of_map_lowerByte (by decide) hext.slash_not_mem hcase,
          Utf8.not_mem_of_map_lowerByte (by decide) hext.dot_not_mem hcase⟩
      rw [ofPath_eq, ofPath_eq, extension?_eq_some_iff.2 (hasExtension_append hdir htail hstem hext hne),
        extension?_eq_some_iff.2 (hasExtension_append hdir htail hstem hext' hne')]
      exact congrArg ofLowered hcase

theorem ofPath_renamed (h : Renamed p q) : ofPath p = ofPath q := by
  induction h with
  | rel _ _ h => exact ofPath_renaming h
  | refl _ => rfl
  | symm _ _ _ ih => exact ih.symm
  | trans _ _ _ _ _ ih ih' => exact ih.trans ih'

end Language

/-! ## The merge -/

theorem programs_assign_congr {a a' b b' : Source} (o : Order) (ha : a.text = a'.text) (hb : b.text = b'.text) :
    (o.assign a b).programs = (o.assign a' b').programs := by
  cases o with
  | asGiven => simp only [Order.assign, Roles.programs, ha, hb]
  | swapped => simp only [Order.assign, Roles.programs, ha, hb]

/-- Two merges give the same, but for the names of their sources. -/
structure Merged.Same (m m' : Merged) : Prop where
  order : m.classification.order = m'.classification.order
  warning : m.classification.warning = m'.classification.warning
  document : m.document = m'.document
  diagnostics : m.diagnostics = m'.diagnostics

/-- A merge reads the texts and the languages of its sources, and no names. -/
theorem merge_congr {a a' b b' : Source} (ha : a.text = a'.text) (hb : b.text = b'.text)
    (hla : a.language = a'.language) (hlb : b.language = b'.language) : (merge a b).Same (merge a' b') := by
  have hclass : (merge a b).classification = (merge a' b').classification := by
    show Classification.ofLanguages a.language b.language = _
    rw [hla, hlb]
    rfl
  refine ⟨congrArg _ hclass, congrArg _ hclass, ?_, ?_⟩
  · show Document.encode (merge a b).roles.programs = Document.encode (merge a' b').roles.programs
    rw [roles_merge, roles_merge, hclass, programs_assign_congr _ ha hb]
  · simp only [diagnostics_merge, reported, Source.hazards, hclass, ha, hb]

/-- Inputs under other paths merge to the same as long as their extensions are the same in lowered
    letters. A path is one of Python or JavaScript if it ends in a stem, a dot and one of the known
    extensions in any letters; all others, such as a name with no stem before its dot, a path that
    ends by going up, and an extension that is not text, are of unknown language. -/
theorem roles_by_extension :
    (∀ (a a' b b' : Path) (t u : Text), a.Renamed a' → b.Renamed b' →
      (merge (.ofPath a t) (.ofPath b u)).Same (merge (.ofPath a' t) (.ofPath b' u))) ∧
    (∀ p, Language.ofPath p = .python ↔
      ∃ ext, p.HasExtension ext ∧ ext.map lowerByte = encode "py".toList) ∧
    (∀ p, Language.ofPath p = .javascript ↔
      ∃ ext, p.HasExtension ext ∧ ext.map lowerByte ∈ ["js", "cjs", "mjs"].map fun known => encode known.toList) ∧
    (∀ p name, p.EndsIn (Path.dot :: name) → Path.IsExtension name → name ≠ [] → Language.ofPath p = .unknown) ∧
    (∀ p, p.EndsIn Path.above → Language.ofPath p = .unknown) ∧
    (∀ p ext, p.HasExtension ext → (∀ t, ext ≠ encode t) → Language.ofPath p = .unknown) := by
  refine ⟨?merges, ?python, ?javascript, ?dotfile, ?above, ?bytes⟩
  case merges =>
    intro a a' b b' t u ha hb
    exact merge_congr rfl rfl (Language.ofPath_renamed ha) (Language.ofPath_renamed hb)
  case python =>
    intro p
    rw [Language.ofPath_eq_iff (by decide)]
    simp only [Language.ofLowered_eq_python_iff, Language.pythonExtensions, List.map_cons, List.map_nil,
      List.mem_singleton]
  case javascript =>
    intro p
    rw [Language.ofPath_eq_iff (by decide)]
    simp only [Language.ofLowered_eq_javascript_iff, Language.javascriptExtensions, List.map_cons, List.map_nil]
  case dotfile =>
    intro p name h hname hne
    rw [Language.ofPath_eq, Path.extension?_of_dotfile h hname hne]
  case above =>
    intro p h
    rw [Language.ofPath_eq, Path.extension?_of_endsIn_above h]
  case bytes =>
    intro p ext h hbytes
    rw [Language.ofPath_eq, Path.extension?_eq_some_iff.2 h]
    exact Language.ofLowered_of_not_text hbytes

def bundlePath : Path := encode "out.py.js".toList

def movedPath : Path := encode "/srv/../x.JS/.".toList

/-- In another directory, under another stem, in other letters, and with a part `.` behind it. -/
theorem renamed_bundlePath : bundlePath.Renamed movedPath := by
  have hleads : Path.Leads (encode "/srv/../".toList) := .inr ⟨encode "/srv/..".toList, rfl⟩
  have hstem : Path.IsStem (encode "out.py".toList) := ⟨by decide, by decide⟩
  have hstem' : Path.IsStem (encode "x".toList) := ⟨by decide, by decide⟩
  have hext : Path.IsExtension (encode "js".toList) := ⟨by decide, by decide⟩
  have hdirectory : Path.Renaming bundlePath (encode "/srv/../out.py.js".toList) :=
    @Path.Renaming.directory [] _ bundlePath [] (.inl rfl) hleads (hstem.isComponent hext) .nil
  have hchange : Path.Renaming (encode "/srv/../out.py.js".toList) (encode "/srv/../x.js".toList) :=
    @Path.Renaming.stem _ _ _ (encode "js".toList) [] hleads .nil hstem hstem' hext (by decide)
  have hletters : Path.Renaming (encode "/srv/../x.js".toList) (encode "/srv/../x.JS".toList) :=
    @Path.Renaming.letters _ _ (encode "js".toList) (encode "JS".toList) [] hleads .nil hstem' hext (by decide)
  have hhere : Path.Renaming (encode "/srv/../x.JS".toList) movedPath := .here _
  exact .trans _ _ _ (.rel _ _ hdirectory) (.trans _ _ _ (.rel _ _ hchange) (.trans _ _ _ (.rel _ _ hletters) (.rel _ _ hhere)))

theorem roles_by_extension_moved :
    bundlePath.Renamed movedPath ∧ Language.ofPath bundlePath = .javascript ∧
      ∀ t u, (merge (.ofPath bundlePath t) (.ofPath bundlePath u)).Same
        (merge (.ofPath movedPath t) (.ofPath bundlePath u)) := by
  obtain ⟨hmerges, -, hjavascript, -⟩ := roles_by_extension
  have hext : bundlePath.HasExtension (encode "js".toList) :=
    ⟨⟨by decide, by decide⟩, encode "out.py".toList, ⟨by decide, by decide⟩, by decide, [], [], rfl, .inl rfl, .nil⟩
  refine ⟨renamed_bundlePath, (hjavascript bundlePath).2 ⟨_, hext, by decide⟩, fun t u => ?_⟩
  exact hmerges _ _ _ _ t u renamed_bundlePath (.refl _)

end Polyglot
