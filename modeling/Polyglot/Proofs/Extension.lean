/-
  Polyglot.Proofs.Extension — what a path ends in.

  A path ends in a part if only idle parts stand behind it (`EndsIn`). The part that it ends in
  and that leads somewhere is its last component (`getLast?_components_eq_some_iff`), so a path
  has an extension exactly if it ends in a stem, a dot and that extension
  (`extension?_eq_some_iff`).
-/

import Mathlib.Data.List.TakeDrop
import Mathlib.Data.List.TakeWhile
import Polyglot.Path

namespace Polyglot.Path

variable {p : Path} {dir dir' tail part stem ext : Bytes}

/-! ## Parts and components -/

theorem parts_append_slash (p q : Path) : parts (p ++ slash :: q) = parts p ++ parts q :=
  List.splitOn_append_cons_of_beq p q (beq_self_eq_true slash)

theorem parts_of_slash_not_mem (h : slash ∉ p) : parts p = [p] := List.splitOn_eq_singleton h

theorem components_append_slash (p q : Bytes) : components (p ++ slash :: q) = components p ++ components q := by
  rw [components, parts_append_slash, List.filter_append]
  rfl

theorem components_nil : components [] = [] := rfl

theorem components_here : components here = [] := rfl

theorem components_of_idle (h : part = [] ∨ part = here) : components part = [] := by
  rcases h with rfl | rfl
  · exact components_nil
  · exact components_here

/-- A part that leads somewhere. -/
structure IsComponent (part : Bytes) : Prop where
  slash_not_mem : slash ∉ part
  ne_nil : part ≠ []
  ne_here : part ≠ here

theorem idle_or_isComponent (h : slash ∉ part) : (part = [] ∨ part = here) ∨ IsComponent part := by
  by_cases hnil : part = []
  · exact .inl (.inl hnil)
  by_cases hhere : part = here
  · exact .inl (.inr hhere)
  exact .inr ⟨h, hnil, hhere⟩

theorem IsComponent.components_eq (h : IsComponent part) : components part = [part] := by
  have hidle : isIdle part = false := by
    rw [isIdle, beq_eq_false_iff_ne.2 h.ne_nil, beq_eq_false_iff_ne.2 h.ne_here]
    rfl
  rw [components, parts_of_slash_not_mem h.slash_not_mem, List.filter_cons_of_pos (by rw [hidle]; rfl), List.filter_nil]

/-- What there may be before a part: nothing, or what ends in a slash. -/
def Leads (dir : Bytes) : Prop := dir = [] ∨ ∃ way, dir = way ++ [slash]

theorem components_append_of_leads (h : Leads dir) (p : Bytes) : components (dir ++ p) = components dir ++ components p := by
  rcases h with rfl | ⟨way, rfl⟩
  · rfl
  · rw [List.append_assoc, List.singleton_append, components_append_slash, components_append_slash, components_nil,
      List.append_nil]

/-- What there may be behind the last component: slashes, and parts `.` behind a slash. -/
inductive Trails : Bytes → Prop
  | nil : Trails []
  | slash {tail : Bytes} : Trails tail → Trails (tail ++ [Path.slash])
  | here {tail : Bytes} : Trails tail → Trails (tail ++ Path.slash :: Path.here)

theorem Trails.append_idle (h : Trails tail) (hpart : part = [] ∨ part = Path.here) :
    Trails (tail ++ Path.slash :: part) := by
  rcases hpart with rfl | rfl
  · exact h.slash
  · exact h.here

theorem components_append_of_trails (h : Trails tail) (p : Bytes) : components (p ++ tail) = components p := by
  induction h with
  | nil => rw [List.append_nil]
  | slash _ ih => rw [← List.append_assoc, components_append_slash, ih, components_nil, List.append_nil]
  | here _ ih => rw [← List.append_assoc, components_append_slash, ih, components_here, List.append_nil]

/-! ## The last component -/

def EndsIn (p : Path) (part : Bytes) : Prop := ∃ dir tail, p = dir ++ part ++ tail ∧ Leads dir ∧ Trails tail

theorem getLast?_components_of_endsIn (h : p.EndsIn part) (hpart : IsComponent part) :
    p.components.getLast? = some part := by
  obtain ⟨dir, tail, rfl, hdir, htail⟩ := h
  rw [components_append_of_trails htail, components_append_of_leads hdir, hpart.components_eq, List.getLast?_concat]

/-- Bytes are cut at the last of those that are `b`. -/
theorem exists_last {b : UInt8} {bs : Bytes} (h : b ∈ bs) : ∃ front back, bs = front ++ b :: back ∧ b ∉ back := by
  obtain ⟨back, front, hbs, hback⟩ := List.eq_append_cons_of_mem (List.mem_reverse.2 h)
  refine ⟨front.reverse, back.reverse, ?_, fun hmem => hback (List.mem_reverse.1 hmem)⟩
  rw [← List.reverse_reverse bs, hbs]
  simp

theorem endsIn_of_getLast?_components (h : p.components.getLast? = some part) : p.EndsIn part ∧ IsComponent part := by
  -- every step takes the last slash off, with an idle part behind it, until the last part is a component
  induction hn : p.length using Nat.strongRecOn generalizing p with
  | ind n ih =>
    by_cases hslash : slash ∈ p
    · obtain ⟨way, last, rfl, hlast⟩ := exists_last hslash
      rw [components_append_slash] at h
      rcases idle_or_isComponent hlast with hidle | hpart
      · rw [components_of_idle hidle, List.append_nil] at h
        have hshorter : way.length < n := by
          rw [← hn, List.length_append, List.length_cons]
          omega
        obtain ⟨⟨dir, tail, rfl, hdir, htail⟩, hpart⟩ := ih way.length hshorter h rfl
        exact ⟨⟨dir, tail ++ slash :: last, by simp, hdir, htail.append_idle hidle⟩, hpart⟩
      · rw [hpart.components_eq, List.getLast?_concat, Option.some.injEq] at h
        subst h
        exact ⟨⟨way ++ [slash], [], by simp, .inr ⟨way, rfl⟩, .nil⟩, hpart⟩
    · rcases idle_or_isComponent hslash with hidle | hpart
      · rw [components_of_idle hidle] at h
        cases h
      · rw [hpart.components_eq, List.getLast?_singleton, Option.some.injEq] at h
        subst h
        exact ⟨⟨[], [], by simp, .inl rfl, .nil⟩, hpart⟩

theorem getLast?_components_eq_some_iff : p.components.getLast? = some part ↔ p.EndsIn part ∧ IsComponent part :=
  ⟨endsIn_of_getLast?_components, fun h => getLast?_components_of_endsIn h.1 h.2⟩

/-! ## The extension -/

structure IsStem (stem : Bytes) : Prop where
  slash_not_mem : slash ∉ stem
  ne_nil : stem ≠ []

structure IsExtension (ext : Bytes) : Prop where
  slash_not_mem : slash ∉ ext
  dot_not_mem : dot ∉ ext

theorem IsStem.isComponent (hstem : IsStem stem) (hext : IsExtension ext) : IsComponent (stem ++ dot :: ext) := by
  have hpos := List.length_pos_iff.2 hstem.ne_nil
  refine ⟨?_, by simp, fun h => ?_⟩
  · rw [List.mem_append, List.mem_cons]
    rintro (hmem | hmem | hmem)
    · exact hstem.slash_not_mem hmem
    · exact absurd hmem (by decide)
    · exact hext.slash_not_mem hmem
  · have hlen := congrArg List.length h
    have hone : here.length = 1 := rfl
    rw [List.length_append, List.length_cons, hone] at hlen
    omega

theorem ne_dot_of_mem_reverse {bs : Bytes} (h : dot ∉ bs) : ∀ b ∈ bs.reverse, (b != dot) = true :=
  fun _ hb => bne_iff_ne.2 fun heq => h (heq ▸ List.mem_reverse.1 hb)

theorem extensionOf?_of_dot_not_mem (h : dot ∉ part) : extensionOf? part = none := by
  rw [extensionOf?, List.span_eq_takeWhile_dropWhile, List.dropWhile_eq_nil_iff.2 (ne_dot_of_mem_reverse h)]

theorem extensionOf?_append (stem : Bytes) (h : dot ∉ ext) :
    extensionOf? (stem ++ dot :: ext) = if stem = [] then none else some ext := by
  have hall := ne_dot_of_mem_reverse h
  have hrev : (stem ++ dot :: ext).reverse = ext.reverse ++ dot :: stem.reverse := by simp
  rw [extensionOf?, hrev, List.span_eq_takeWhile_dropWhile, List.takeWhile_append_of_pos hall,
    List.dropWhile_append_of_pos hall, List.takeWhile_cons_of_neg (by simp), List.dropWhile_cons_of_neg (by simp),
    List.append_nil]
  rcases List.eq_nil_or_concat stem with rfl | ⟨front, b, rfl⟩
  · rfl
  · simp

theorem extensionOf?_eq_some_iff :
    extensionOf? part = some ext ↔ ∃ stem, part = stem ++ dot :: ext ∧ stem ≠ [] ∧ dot ∉ ext := by
  constructor
  · intro h
    by_cases hdot : dot ∈ part
    · obtain ⟨stem, ext', rfl, hext⟩ := exists_last hdot
      rw [extensionOf?_append stem hext] at h
      obtain ⟨hstem, heq⟩ := Option.ite_none_left_eq_some.1 h
      obtain rfl := Option.some.inj heq
      exact ⟨stem, rfl, hstem, hext⟩
    · rw [extensionOf?_of_dot_not_mem hdot] at h
      cases h
  · intro h
    obtain ⟨stem, rfl, hstem, hext⟩ := h
    rw [extensionOf?_append stem hext, if_neg hstem]

theorem fileName?_eq_some_iff : p.fileName? = some part ↔ p.EndsIn part ∧ IsComponent part ∧ part ≠ above := by
  rw [← and_assoc, ← getLast?_components_eq_some_iff, fileName?]
  cases p.components.getLast? with
  | none => simp
  | some last =>
    simp only [Option.ite_none_left_eq_some, Option.some.injEq]
    constructor
    · rintro ⟨hne, rfl⟩
      exact ⟨rfl, hne⟩
    · rintro ⟨rfl, hne⟩
      exact ⟨hne, rfl⟩

/-- The path ends in a stem, a dot and the extension, and does not end by going up. -/
def HasExtension (p : Path) (ext : Bytes) : Prop :=
  IsExtension ext ∧ ∃ stem, IsStem stem ∧ stem ++ dot :: ext ≠ above ∧ p.EndsIn (stem ++ dot :: ext)

theorem extension?_eq_some_iff : p.extension? = some ext ↔ p.HasExtension ext := by
  rw [extension?, Option.bind_eq_some_iff]
  constructor
  · intro h
    obtain ⟨name, hname, hext⟩ := h
    obtain ⟨stem, rfl, hstem, hdot⟩ := extensionOf?_eq_some_iff.1 hext
    obtain ⟨hends, hpart, habove⟩ := fileName?_eq_some_iff.1 hname
    have hslash := hpart.slash_not_mem
    rw [List.mem_append, List.mem_cons, not_or, not_or] at hslash
    exact ⟨⟨hslash.2.2, hdot⟩, stem, ⟨hslash.1, hstem⟩, habove, hends⟩
  · intro h
    obtain ⟨hext, stem, hstem, habove, hends⟩ := h
    exact ⟨_, fileName?_eq_some_iff.2 ⟨hends, hstem.isComponent hext, habove⟩,
      extensionOf?_eq_some_iff.2 ⟨stem, rfl, hstem.ne_nil, hext.dot_not_mem⟩⟩

theorem hasExtension_append (hdir : Leads dir) (htail : Trails tail) (hstem : IsStem stem) (hext : IsExtension ext)
    (hne : ext ≠ []) : HasExtension (dir ++ (stem ++ dot :: ext) ++ tail) ext := by
  refine ⟨hext, stem, hstem, fun h => ?_, dir, tail, rfl, hdir, htail⟩
  have hlen := congrArg List.length h
  have hstem' := List.length_pos_iff.2 hstem.ne_nil
  have hext' := List.length_pos_iff.2 hne
  have htwo : above.length = 2 := rfl
  rw [List.length_append, List.length_cons, htwo] at hlen
  omega

/-! ## Paths with the same extension -/

theorem extension?_append_slash (hpart : part = [] ∨ part = here) : extension? (p ++ slash :: part) = p.extension? := by
  rw [extension?, fileName?, components_append_slash, components_of_idle hpart, List.append_nil]
  rfl

theorem extension?_directory (hdir : Leads dir) (hdir' : Leads dir') (htail : Trails tail) (hpart : IsComponent part) :
    extension? (dir ++ part ++ tail) = extension? (dir' ++ part ++ tail) := by
  have hlast := getLast?_components_of_endsIn ⟨dir, tail, rfl, hdir, htail⟩ hpart
  have hlast' := getLast?_components_of_endsIn ⟨dir', tail, rfl, hdir', htail⟩ hpart
  rw [extension?, extension?, fileName?, fileName?, hlast, hlast']

/-! ## Paths without an extension -/

theorem extension?_of_endsIn_above (h : p.EndsIn above) : p.extension? = none := by
  have hlast := getLast?_components_of_endsIn h ⟨by decide, by decide, by decide⟩
  rw [extension?, fileName?, hlast]
  rfl

/-- A name that starts with its only dot has no stem. -/
theorem extension?_of_dotfile {name : Bytes} (h : p.EndsIn (dot :: name)) (hname : IsExtension name) (hne : name ≠ []) :
    p.extension? = none := by
  have hpart : IsComponent (dot :: name) := by
    refine ⟨?_, by simp, fun heq => hne (List.cons.inj heq).2⟩
    rw [List.mem_cons, not_or]
    exact ⟨by decide, hname.slash_not_mem⟩
  have habove : dot :: name ≠ above := fun heq => hname.dot_not_mem ((List.cons.inj heq).2 ▸ List.mem_singleton.2 rfl)
  rw [extension?, fileName?_eq_some_iff.2 ⟨h, hpart, habove⟩]
  exact extensionOf?_append [] hname.dot_not_mem

end Polyglot.Path
