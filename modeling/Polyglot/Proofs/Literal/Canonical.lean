/-
  Polyglot.Proofs.Literal.Canonical — the word that an escaping writes, among all words
  for a text.

  In a word a character may stand for itself although the escaping would escape it. The
  word that is written is the one where none does (`Word.eq_escape_iff`), and every other
  word for the same text is lighter, for any weights by which an escape outweighs what it
  stands for (`Word.eq_escape_or_lt`). For the words of the host the weight is the length
  in bytes; for those of the Python program it is the length that the host makes of them.
-/

import Mathlib.Algebra.Ring.Nat
import Polyglot.Proofs.Literal.Words

namespace Polyglot.Literal

/-- The characters of a body that no backslash takes along, read unit by unit. -/
def unescaped : Text → Text
  | [] => []
  | c :: rest =>
    if c = '\\' then
      match rest with
      | [] => []
      | _ :: rest => unescaped rest
    else c :: unescaped rest

theorem unescaped_of_ne {c : Char} (hc : c ≠ '\\') (rest : Text) : unescaped (c :: rest) = c :: unescaped rest := by
  cases rest <;> simp [unescaped, hc]

theorem unescaped_escape (l : Char) (rest : Text) : unescaped ('\\' :: l :: rest) = unescaped rest := by
  rw [unescaped, if_pos rfl]

theorem mem_of_mem_unescaped {c : Char} {w : Text} (h : c ∈ unescaped w) : c ∈ w := by
  fun_induction unescaped w with
  | case1 => exact h
  | case2 => cases h
  | case3 l rest ih => exact List.mem_cons_of_mem _ (List.mem_cons_of_mem l (ih h))
  | case4 d rest hd ih =>
    rcases List.mem_cons.1 h with rfl | h
    · exact List.mem_cons_self
    · exact List.mem_cons_of_mem d (ih h)

variable {plain : Char → Prop} {letters : List (Char × Char)} {e : Escaping} {w t : Text}

theorem Word.plain_of_mem_unescaped (hp : ∀ c, plain c → c ≠ '\\') (hw : Word plain letters w t) :
    ∀ c ∈ unescaped w, plain c := by
  induction hw with
  | nil =>
    intro c hc
    cases hc
  | bare hd _ ih =>
    rw [unescaped_of_ne (hp _ hd)]
    intro c hc
    rcases List.mem_cons.1 hc with rfl | hc
    · exact hd
    · exact ih c hc
  | escape _ _ ih =>
    rw [unescaped_escape]
    exact ih

/-! ## The written word -/

theorem unit_of_letterOf_eq_none {c : Char} (hc : e.letterOf c = none) : e.unit c = [c] := by
  rw [Escaping.unit, hc]

theorem unit_of_letterOf_eq_some {c l : Char} (hc : e.letterOf c = some l) : e.unit c = ['\\', l] := by
  rw [Escaping.unit, hc]

theorem letterOf_of_mem (he : Lists letters e) {l c : Char} (h : (l, c) ∈ letters) : e.letterOf c = some l :=
  (e.charOf_eq_some l c).1 ((he l c).2 h)

theorem Word.eq_escape_iff (he : Lists letters e) (hw : Word (fun c => c ≠ '\\') letters w t) :
    w = e.escape t ↔ ∀ c ∈ unescaped w, e.letterOf c = none := by
  induction hw with
  | nil => simp [unescaped]
  | @bare c w t hc _ ih =>
    rw [unescaped_of_ne hc, Escaping.escape_cons, List.forall_mem_cons, ← ih]
    cases hl : e.letterOf c with
    | none => simp [unit_of_letterOf_eq_none hl]
    | some l => simp [unit_of_letterOf_eq_some hl, hc]
  | escape hl _ ih =>
    rw [unescaped_escape, Escaping.escape_cons, unit_of_letterOf_eq_some (letterOf_of_mem he hl), ← ih]
    simp

/-- An escape outweighs what it stands for, so a word in which something escaped stands for itself
    is lighter than the word that is written. -/
theorem Word.eq_escape_or_lt (he : Lists letters e) {weight : Char → Nat}
    (hweight : ∀ c l, e.letterOf c = some l → weight c < weight '\\' + weight l)
    (hw : Word (fun c => c ≠ '\\') letters w t) :
    w = e.escape t ∨ (w.map weight).sum < ((e.escape t).map weight).sum := by
  induction hw with
  | nil => exact Or.inl rfl
  | @bare c w t _ _ ih =>
    rw [Escaping.escape_cons]
    cases hl : e.letterOf c with
    | none =>
      rw [unit_of_letterOf_eq_none hl]
      rcases ih with rfl | ih
      · exact Or.inl rfl
      · right
        simpa using ih
    | some l =>
      have hlt := hweight c l hl
      have hle : (w.map weight).sum ≤ ((e.escape t).map weight).sum := by
        rcases ih with rfl | ih
        · exact Nat.le_refl _
        · exact Nat.le_of_lt ih
      right
      rw [unit_of_letterOf_eq_some hl]
      simp only [List.map_cons, List.map_append, List.map_nil, List.sum_cons, List.sum_append, List.sum_nil]
      omega
  | escape hl _ ih =>
    rw [Escaping.escape_cons, unit_of_letterOf_eq_some (letterOf_of_mem he hl)]
    rcases ih with rfl | ih
    · exact Or.inl rfl
    · right
      simpa using ih

/-! ## The host -/

theorem byteLen_eq_sum (t : Text) : Text.byteLen t = (t.map Char.utf8Size).sum := by
  induction t with
  | nil => rfl
  | cons c t ih => rw [Text.byteLen_cons, ih, List.map_cons, List.sum_cons]

theorem host_letterOf_eq_none_iff {c : Char} :
    Escaping.host.letterOf c = none ↔ c ≠ '\\' ∧ c ≠ '\n' ∧ c ≠ '"' := by
  simp only [Escaping.host]
  grind

theorem utf8Size_lt_of_host {c l : Char} (h : Escaping.host.letterOf c = some l) :
    c.utf8Size < '\\'.utf8Size + l.utf8Size := by
  simp only [Escaping.host] at h
  split at h <;> cases h <;> decide

/-- In a word of the host a line feed is all that may stand for itself and is escaped when written. -/
theorem HostWord.eq_escape_iff (hw : HostWord w t) : w = Escaping.host.escape t ↔ '\n' ∉ w := by
  constructor
  · intro h
    rw [h]
    exact not_mem_escape (by decide) (by decide) (by decide) t
  · intro hn
    rw [hw.word.eq_escape_iff lists_host]
    intro c hc
    obtain ⟨hbackslash, hquote⟩ := hw.plain_of_mem_unescaped (fun _ hd => hd.1) c hc
    have hfeed : c ≠ '\n' := by
      intro heq
      subst heq
      exact hn (mem_of_mem_unescaped hc)
    exact host_letterOf_eq_none_iff.2 ⟨hbackslash, hfeed, hquote⟩

theorem HostWord.eq_escape_or_lt (hw : HostWord w t) :
    w = Escaping.host.escape t ∨ Text.byteLen w < Text.byteLen (Escaping.host.escape t) := by
  rw [byteLen_eq_sum, byteLen_eq_sum]
  exact hw.word.eq_escape_or_lt lists_host fun _ _ => utf8Size_lt_of_host

/-! ## The Python program -/

theorem byteLen_escape_eq_sum (e : Escaping) (t : Text) :
    Text.byteLen (e.escape t) = (t.map fun c => Text.byteLen (e.unit c)).sum := by
  induction t with
  | nil => rfl
  | cons c t ih => rw [Escaping.escape_cons, Text.byteLen_append, ih, List.map_cons, List.sum_cons]

theorem python_letterOf_eq_none_iff {c : Char} :
    Escaping.python.letterOf c = none ↔ c ≠ '\\' ∧ c ≠ '\'' ∧ c ≠ '"' := by
  simp only [Escaping.python]
  grind

theorem byteLen_unit_lt_of_python {c l : Char} (h : Escaping.python.letterOf c = some l) :
    Text.byteLen (Escaping.host.unit c) <
      Text.byteLen (Escaping.host.unit '\\') + Text.byteLen (Escaping.host.unit l) := by
  simp only [Escaping.python] at h
  split at h <;> cases h <;> decide

theorem PythonWord.eq_escape_iff (hw : PythonWord w t) :
    w = Escaping.python.escape t ↔ '\'' ∉ unescaped w ∧ '"' ∉ unescaped w := by
  rw [Word.eq_escape_iff lists_python hw]
  constructor
  · intro h
    constructor
    · intro hc
      exact absurd (h _ hc) (by decide)
    · intro hc
      exact absurd (h _ hc) (by decide)
  · intro h c hc
    have hbackslash : c ≠ '\\' := hw.plain_of_mem_unescaped (fun _ hd => hd) c hc
    have hsingle : c ≠ '\'' := by
      intro heq
      subst heq
      exact h.1 hc
    have hdouble : c ≠ '"' := by
      intro heq
      subst heq
      exact h.2 hc
    exact python_letterOf_eq_none_iff.2 ⟨hbackslash, hsingle, hdouble⟩

theorem PythonWord.eq_escape_or_lt (hw : PythonWord w t) :
    w = Escaping.python.escape t ∨
      Text.byteLen (Escaping.host.escape w) < Text.byteLen (Escaping.host.escape (Escaping.python.escape t)) := by
  rw [byteLen_escape_eq_sum, byteLen_escape_eq_sum]
  exact Word.eq_escape_or_lt lists_python (fun _ _ => byteLen_unit_lt_of_python) hw

end Polyglot.Literal
