/-
  Polyglot.Proofs.Document.Lexing — a document as the interpreters of its two languages
  read it.

  `Lexis` is how an interpreter reads a string literal; it knows nothing of how this
  program takes documents apart. What an escaping writes is read back by a lexis with
  the same letters whose delimiter is escaped, unless a character that must not stand in
  the literal is left as it is (`read_escape_of_free`, `read_escape_of_refused`). In a
  document, a carriage return is the only such character (`lex_encode`).
-/

import Mathlib.Data.List.Basic
import Polyglot.Document.Basic
import Polyglot.Proofs.Literal.Words

namespace Polyglot

namespace Literal

/-- How an interpreter reads one kind of string literal: what ends it, what the letters after a
    backslash stand for, and which characters must not stand in it as they are. -/
structure Lexis where
  delimiter : Text
  letters : List (Char × Char)
  refused : List Char

namespace Lexis

/-- Literals between double quotes, which end on the line they start on. -/
def doubleQuoted : Lexis := ⟨['"'], hostLetters, ['\n', '\r']⟩

/-- Python's literals between three single quotes. -/
def tripleQuoted : Lexis := ⟨"'''".toList, pythonLetters, []⟩

/-- Puts a character in front of a value that was read. -/
def prepend (c : Char) (r : Text × Text) : Text × Text := (c :: r.1, r.2)

/-- The value of a literal, from after its opening delimiter on, and what follows the literal. -/
def read (x : Lexis) : Text → Option (Text × Text)
  | [] => none
  | c :: rest =>
    match x.delimiter.isPrefixOf? (c :: rest) with
    | some after => some ([], after)
    | none =>
      if c = '\\' then
        match rest with
        | [] => none
        | l :: rest => (x.letters.lookup l).bind fun meant => (read x rest).map (prepend meant)
      else if c ∈ x.refused then none
      else (read x rest).map (prepend c)

theorem read_of_prefix {x : Lexis} {c : Char} {rest after : Text}
    (h : x.delimiter.isPrefixOf? (c :: rest) = some after) : x.read (c :: rest) = some ([], after) := by
  cases rest <;> simp [read, h]

theorem read_backslash {x : Lexis} {l : Char} {rest : Text}
    (h : x.delimiter.isPrefixOf? ('\\' :: l :: rest) = none) :
    x.read ('\\' :: l :: rest) = (x.letters.lookup l).bind fun meant => (x.read rest).map (prepend meant) := by
  simp [read, h]

theorem read_of_ne {x : Lexis} {c : Char} {rest : Text} (h : x.delimiter.isPrefixOf? (c :: rest) = none)
    (hc : c ≠ '\\') : x.read (c :: rest) = if c ∈ x.refused then none else (x.read rest).map (prepend c) := by
  cases rest <;> simp [read, h, hc]

/-- `x` has the letters of `e`, and `e` escapes what the delimiter of `x` starts with. -/
structure Fits (x : Lexis) (e : Escaping) : Prop where
  lookup : ∀ l, x.letters.lookup l = e.charOf l
  delimiter : ∃ q rest, x.delimiter = q :: rest ∧ q ≠ '\\' ∧ e.letterOf q ≠ none

theorem doubleQuoted_fits : Fits doubleQuoted .host where
  lookup l := by
    simp only [doubleQuoted, hostLetters, Escaping.host, List.lookup_cons, List.lookup_nil]
    grind
  delimiter := ⟨'"', [], rfl, by decide, by decide⟩

theorem tripleQuoted_fits : Fits tripleQuoted .python where
  lookup l := by
    simp only [tripleQuoted, pythonLetters, Escaping.python, List.lookup_cons, List.lookup_nil]
    grind
  delimiter := ⟨'\'', ['\'', '\''], rfl, by decide, by decide⟩

variable {x : Lexis} {e : Escaping}

theorem read_delimiter (h : x.Fits e) (rest : Text) : x.read (x.delimiter ++ rest) = some ([], rest) := by
  obtain ⟨q, ds, hd, -, -⟩ := h.delimiter
  have hp : x.delimiter.isPrefixOf? (x.delimiter ++ rest) = some rest := List.isPrefixOf?_eq_some_iff_append_eq.2 rfl
  rw [hd, List.cons_append] at hp ⊢
  exact read_of_prefix (by rw [hd]; exact hp)

theorem isPrefixOf?_delimiter (h : x.Fits e) {c : Char} (hc : c = '\\' ∨ e.letterOf c = none) (rest : Text) :
    x.delimiter.isPrefixOf? (c :: rest) = none := by
  obtain ⟨q, ds, hd, hq, hl⟩ := h.delimiter
  have hne : q ≠ c := by
    intro hqc
    subst hqc
    rcases hc with hc | hc
    · exact hq hc
    · exact hl hc
  rw [hd]
  simp [List.isPrefixOf?, hne]

/-- A written unit is read as its character, unless that must not stand as it is. -/
theorem read_unit (h : x.Fits e) (c : Char) (rest : Text) :
    x.read (e.unit c ++ rest) =
      if e.letterOf c = none ∧ c ∈ x.refused then none else (x.read rest).map (prepend c) := by
  rw [Escaping.unit]
  cases hl : e.letterOf c with
  | some l =>
    have hm : x.letters.lookup l = some c := (h.lookup l).trans ((e.charOf_eq_some l c).2 hl)
    have hp := isPrefixOf?_delimiter h (Or.inl rfl) (l :: rest)
    simp [read_backslash hp, hm]
  | none =>
    have hne : c ≠ '\\' := by
      intro hc
      subst hc
      exact e.letterOf_backslash hl
    have hp := isPrefixOf?_delimiter h (Or.inr hl) rest
    simp [read_of_ne hp hne]

theorem read_escape_of_free (h : x.Fits e) {t : Text} (ht : ∀ c ∈ t, e.letterOf c = none → c ∉ x.refused)
    (rest : Text) : x.read (e.escape t ++ (x.delimiter ++ rest)) = some (t, rest) := by
  induction t with
  | nil => exact read_delimiter h rest
  | cons c t ih =>
    have hc : ¬(e.letterOf c = none ∧ c ∈ x.refused) := fun hn => ht c List.mem_cons_self hn.1 hn.2
    rw [Escaping.escape_cons, List.append_assoc, read_unit h, if_neg hc,
      ih fun d hd => ht d (List.mem_cons_of_mem c hd)]
    rfl

theorem read_escape_of_refused (h : x.Fits e) {t : Text} {c : Char} (ht : c ∈ t) (hl : e.letterOf c = none)
    (hc : c ∈ x.refused) (rest : Text) : x.read (e.escape t ++ (x.delimiter ++ rest)) = none := by
  induction t with
  | nil => cases ht
  | cons d t ih =>
    rw [Escaping.escape_cons, List.append_assoc, read_unit h]
    by_cases hd : e.letterOf d = none ∧ d ∈ x.refused
    · rw [if_pos hd]
    · have hne : c ≠ d := by
        intro hcd
        subst hcd
        exact hd ⟨hl, hc⟩
      rw [if_neg hd, ih (List.mem_of_ne_of_mem hne ht)]
      rfl

end Lexis

end Literal

namespace Document

open Literal.Lexis (doubleQuoted tripleQuoted)

/-- The values of the two literals of a text that is, from its start to its end, an array of two
    literals with the selector after it. -/
def lex (d : Text) : Option (Text × Text) := do
  let rest ← "eval([\"".toList.isPrefixOf? d
  let (first, rest) ← doubleQuoted.read rest
  let rest ← ", \"".toList.isPrefixOf? rest
  let (second, rest) ← doubleQuoted.read rest
  if rest = "][".toList ++ selector ++ "])".toList then some (first, second) else none

/-- A carriage return is all that the host escaping leaves as it is though it must not stand so. -/
theorem read_host_escape (t rest : Text) :
    doubleQuoted.read (Escaping.host.escape t ++ '"' :: rest) = if '\r' ∈ t then none else some (t, rest) := by
  by_cases ht : '\r' ∈ t
  · rw [if_pos ht]
    exact Literal.Lexis.read_escape_of_refused Literal.Lexis.doubleQuoted_fits ht (by decide) (by decide) rest
  rw [if_neg ht]
  apply Literal.Lexis.read_escape_of_free Literal.Lexis.doubleQuoted_fits
  intro c hc hl hr
  simp only [doubleQuoted, List.mem_cons, List.not_mem_nil, or_false] at hr
  rcases hr with rfl | rfl
  · exact absurd hl (by decide)
  · exact ht hc

theorem read_python_escape (t rest : Text) :
    tripleQuoted.read (Escaping.python.escape t ++ ("'''".toList ++ rest)) = some (t, rest) := by
  apply Literal.Lexis.read_escape_of_free Literal.Lexis.tripleQuoted_fits
  intro c _ _
  exact List.not_mem_nil

theorem mem_execStatement {p : Text} : '\r' ∈ execStatement p ↔ '\r' ∈ p := by
  have h₁ : '\r' ∉ execOpening := by decide
  have h₂ : '\r' ∉ execClosing := by decide
  rw [execStatement, List.mem_append, List.mem_append, Literal.mem_escape_iff (by decide) (by decide)]
  simp [h₁, h₂]

theorem lex_encode_eq (p : Programs) :
    lex (encode p) =
      if '\r' ∈ p.javascript ∨ '\r' ∈ p.python then none else some (p.javascript, execStatement p.python) := by
  have hopen (r : Text) : "eval([\"".toList.isPrefixOf? (opening ++ r) = some r :=
    List.isPrefixOf?_eq_some_iff_append_eq.2 rfl
  have hsep (r : Text) : ", \"".toList.isPrefixOf? (", \"".toList ++ r) = some r :=
    List.isPrefixOf?_eq_some_iff_append_eq.2 rfl
  have hd : encode p = opening ++ (Escaping.host.escape p.javascript ++ '"' :: (", \"".toList ++
      (Escaping.host.escape (execStatement p.python) ++ '"' :: ("][".toList ++ selector ++ "])".toList)))) := by
    simp only [encode, List.append_assoc]
    rfl
  rw [lex, hd, hopen]
  simp only [bind, Option.bind_some, read_host_escape]
  by_cases hj : '\r' ∈ p.javascript
  · rw [if_pos hj, if_pos (Or.inl hj)]
    rfl
  rw [if_neg hj]
  simp only [Option.bind_some, hsep, read_host_escape, mem_execStatement]
  by_cases hp : '\r' ∈ p.python
  · rw [if_pos hp, if_pos (Or.inr hp)]
    rfl
  rw [if_neg hp, if_neg (not_or.2 ⟨hj, hp⟩)]
  rfl

/-- What the triple-quoted literal in a statement says is the program. -/
theorem read_execStatement (python : Text) :
    ∃ t, execStatement python = "exec('''".toList ++ t ∧ tripleQuoted.read t = some (python, ")".toList) := by
  refine ⟨Escaping.python.escape python ++ execClosing, ?_, ?_⟩
  · rw [execStatement, List.append_assoc]
    rfl
  · exact read_python_escape python ")".toList

/-- The interpreters can read the document of two programs exactly if neither has a carriage return
    in it. Then the first literal is the JavaScript program, and the second is a statement around a
    literal that is the Python program. -/
theorem lex_encode (p : Programs) :
    ((lex (encode p)).isSome = true ↔ '\r' ∉ p.python ∧ '\r' ∉ p.javascript) ∧
      ∀ first second, lex (encode p) = some (first, second) →
        first = p.javascript ∧
          ∃ t, second = "exec('''".toList ++ t ∧ tripleQuoted.read t = some (p.python, ")".toList) := by
  rw [lex_encode_eq]
  by_cases h : '\r' ∈ p.javascript ∨ '\r' ∈ p.python
  · rw [if_pos h]
    refine ⟨?_, ?_⟩
    · constructor
      · intro hs; cases hs
      · intro hn; exact absurd h (not_or.2 ⟨hn.2, hn.1⟩)
    · intro first second hs; cases hs
  · rw [if_neg h]
    refine ⟨?_, ?_⟩
    · constructor
      · intro _; exact ⟨(not_or.1 h).2, (not_or.1 h).1⟩
      · intro _; rfl
    · intro first second hs
      simp only [Option.some.injEq, Prod.mk.injEq] at hs
      obtain ⟨rfl, rfl⟩ := hs
      exact ⟨rfl, read_execStatement p.python⟩

end Document

end Polyglot
