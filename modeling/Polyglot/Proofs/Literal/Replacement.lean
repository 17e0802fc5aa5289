/-
  Polyglot.Proofs.Literal.Replacement — escaping by replacing one character after the
  other.

  An escape brings a backslash and a letter into the text, and a later replacement reads
  over both. It leaves them alone if it looks neither for a backslash nor for a letter
  that is there already (`InTurn`). Replacements in such an order write what one pass over
  the text writes (`replaceInTurn_eq`), so the backslash has to come first and the order
  of the others does not matter (`escapeOnto_eq_replacements`).
-/

import Polyglot.Proofs.Literal.Words

namespace Polyglot

namespace Text

/-- Every `c` of a text replaced by `w`, from left to right. -/
def replaceAll (c : Char) (w : Text) : Text → Text
  | [] => []
  | d :: t => (if d = c then w else [d]) ++ replaceAll c w t

variable {c : Char} {w : Text}

theorem replaceAll_append (u v : Text) : replaceAll c w (u ++ v) = replaceAll c w u ++ replaceAll c w v := by
  induction u with
  | nil => rfl
  | cons d u ih => rw [List.cons_append, replaceAll, replaceAll, ih, List.append_assoc]

theorem replaceAll_singleton (d : Char) : replaceAll c w [d] = if d = c then w else [d] := by
  rw [replaceAll, replaceAll, List.append_nil]

theorem replaceAll_of_not_mem {t : Text} (h : c ∉ t) : replaceAll c w t = t := by
  induction t with
  | nil => rfl
  | cons d t ih =>
    have hd : d ≠ c := fun hdc => h (hdc ▸ List.mem_cons_self)
    rw [replaceAll, if_neg hd, ih fun hc => h (List.mem_cons_of_mem d hc)]
    rfl

end Text

namespace Literal

open Text (replaceAll)

/-- What is written for a character when those of a table are escaped, each with its letter. -/
def tableUnit (table : List (Char × Char)) (c : Char) : Text :=
  match table.lookup c with
  | some l => ['\\', l]
  | none => [c]

/-- The replacements of a table made one after the other, each over all of what the ones before it
    left. -/
def replaceInTurn (table : List (Char × Char)) (t : Text) : Text :=
  table.foldl (fun t s => replaceAll s.1 ['\\', s.2] t) t

/-- No replacement looks for a character that an earlier one writes. -/
def InTurn (table : List (Char × Char)) : Prop := table.Pairwise fun s s' => s'.1 ≠ '\\' ∧ s'.1 ≠ s.2

instance (table : List (Char × Char)) : Decidable (InTurn table) := inferInstanceAs (Decidable (table.Pairwise _))

variable {table : List (Char × Char)} {c l : Char}

/-- Over a unit that is there already a replacement passes, and of what stands for itself it takes
    its own character. -/
theorem replaceAll_tableUnit (h : ∀ s ∈ table, c ≠ '\\' ∧ c ≠ s.2) (d : Char) :
    replaceAll c ['\\', l] (tableUnit table d) = tableUnit (table ++ [(c, l)]) d := by
  have hlookup : (table ++ [(c, l)]).lookup d = (table.lookup d).or ([(c, l)].lookup d) := List.lookup_append
  rw [tableUnit, tableUnit, hlookup]
  cases hd : table.lookup d with
  | some k =>
    obtain ⟨u, v, htable, -⟩ := List.lookup_eq_some_iff.1 hd
    obtain ⟨hbackslash, hletter⟩ := h (d, k) (by simp [htable])
    exact Text.replaceAll_of_not_mem (by simp [hbackslash, hletter])
  | none =>
    rw [Text.replaceAll_singleton]
    by_cases hdc : d = c
    · simp [hdc]
    · have hbeq : (d == c) = false := beq_eq_false_iff_ne.2 hdc
      simp [hdc, hbeq, List.lookup_cons]

theorem replaceAll_flatMap_tableUnit (h : ∀ s ∈ table, c ≠ '\\' ∧ c ≠ s.2) (t : Text) :
    replaceAll c ['\\', l] (t.flatMap (tableUnit table)) = t.flatMap (tableUnit (table ++ [(c, l)])) := by
  induction t with
  | nil => rfl
  | cons d t ih =>
    rw [List.flatMap_cons, List.flatMap_cons, Text.replaceAll_append, replaceAll_tableUnit h, ih]

/-- The table of what has been replaced grows at its end, by one replacement at a time. -/
theorem foldl_replaceAll_eq (done : List (Char × Char)) (h : InTurn (done ++ table)) (t : Text) :
    table.foldl (fun t s => replaceAll s.1 ['\\', s.2] t) (t.flatMap (tableUnit done)) =
      t.flatMap (tableUnit (done ++ table)) := by
  induction table generalizing done with
  | nil => rw [List.append_nil]; rfl
  | cons s table ih =>
    have hs : ∀ s' ∈ done, s.1 ≠ '\\' ∧ s.1 ≠ s'.2 := fun s' hs' =>
      (List.pairwise_append.1 h).2.2 s' hs' s List.mem_cons_self
    have happ : done ++ s :: table = (done ++ [s]) ++ table := by simp
    rw [List.foldl_cons, replaceAll_flatMap_tableUnit hs, happ]
    exact ih (done ++ [s]) (happ ▸ h)

theorem replaceInTurn_eq (h : InTurn table) (t : Text) : replaceInTurn table t = t.flatMap (tableUnit table) := by
  have hnone : t.flatMap (tableUnit []) = t := List.flatMap_singleton' t
  have hfold := foldl_replaceAll_eq [] h t
  rwa [hnone] at hfold

/-- A table that pairs each character with its letter looks up what the escaping does. -/
theorem lookup_eq_letterOf {letters : List (Char × Char)} {e : Escaping} (he : Lists letters e)
    (hperm : table.Perm (letters.map Prod.swap)) (c : Char) : table.lookup c = e.letterOf c := by
  have hmem (l : Char) : (c, l) ∈ table ↔ e.letterOf c = some l := by
    rw [← e.charOf_eq_some, he, hperm.mem_iff, List.mem_map]
    constructor
    · rintro ⟨⟨l', c'⟩, hp, hswap⟩
      cases hswap
      exact hp
    · exact fun hp => ⟨(l, c), hp, rfl⟩
  cases hl : table.lookup c with
  | some l =>
    obtain ⟨u, v, htable, -⟩ := List.lookup_eq_some_iff.1 hl
    exact ((hmem l).1 (by simp [htable])).symm
  | none =>
    cases hc : e.letterOf c with
    | none => rfl
    | some l =>
      have hne := List.lookup_eq_none_iff.1 hl (c, l) ((hmem l).2 hc)
      simp at hne

/-- Replacements for all letters of an escaping, in an order in which none reads what another wrote,
    come to what the escaping writes. -/
theorem replaceInTurn_eq_escape {letters : List (Char × Char)} {e : Escaping} (he : Lists letters e)
    (hperm : table.Perm (letters.map Prod.swap)) (h : InTurn table) (t : Text) :
    replaceInTurn table t = e.escape t := by
  have hunit : tableUnit table = e.unit := by
    funext c
    rw [tableUnit, lookup_eq_letterOf he hperm]
    rfl
  rw [replaceInTurn_eq h, hunit]
  rfl

/-- Escaping in one pass is replacing the backslash first and then the other two characters, in
    either order, each replacement going over all that the one before it left. -/
theorem escapeOnto_eq_replacements (out t : Text) :
    (Escaping.host.escapeOnto out t =
        out ++ replaceAll '"' ['\\', '"'] (replaceAll '\n' ['\\', 'n'] (replaceAll '\\' ['\\', '\\'] t)) ∧
      Escaping.host.escapeOnto out t =
        out ++ replaceAll '\n' ['\\', 'n'] (replaceAll '"' ['\\', '"'] (replaceAll '\\' ['\\', '\\'] t))) ∧
    Escaping.python.escapeOnto out t =
        out ++ replaceAll '"' ['\\', '"'] (replaceAll '\'' ['\\', '\''] (replaceAll '\\' ['\\', '\\'] t)) ∧
      Escaping.python.escapeOnto out t =
        out ++ replaceAll '\'' ['\\', '\''] (replaceAll '"' ['\\', '"'] (replaceAll '\\' ['\\', '\\'] t)) := by
  have hfeedFirst : replaceInTurn [('\\', '\\'), ('\n', 'n'), ('"', '"')] t = Escaping.host.escape t :=
    replaceInTurn_eq_escape lists_host (by decide) (by decide) t
  have hquoteFirst : replaceInTurn [('\\', '\\'), ('"', '"'), ('\n', 'n')] t = Escaping.host.escape t :=
    replaceInTurn_eq_escape lists_host (by decide) (by decide) t
  have hsingleFirst : replaceInTurn [('\\', '\\'), ('\'', '\''), ('"', '"')] t = Escaping.python.escape t :=
    replaceInTurn_eq_escape lists_python (by decide) (by decide) t
  have hdoubleFirst : replaceInTurn [('\\', '\\'), ('"', '"'), ('\'', '\'')] t = Escaping.python.escape t :=
    replaceInTurn_eq_escape lists_python (by decide) (by decide) t
  rw [Escaping.escapeOnto_eq, Escaping.escapeOnto_eq]
  refine ⟨⟨?_, ?_⟩, ?_, ?_⟩
  · rw [← hfeedFirst]
    rfl
  · rw [← hquoteFirst]
    rfl
  · rw [← hsingleFirst]
    rfl
  · rw [← hdoubleFirst]
    rfl

/-- The backslash must come first: replaced last, it is doubled in what stands for a line feed. -/
example : replaceInTurn [('\n', 'n'), ('\\', '\\')] ['\n'] = ['\\', '\\', 'n'] := by decide

end Literal

end Polyglot
