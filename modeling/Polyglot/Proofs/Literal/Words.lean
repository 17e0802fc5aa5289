/-
  Polyglot.Proofs.Literal.Words — the bodies of literals as words of units.

  A unit is a character that stands for itself, or a backslash with a letter. A word is
  a sequence of units; it stands for one text (`Word.text_unique`).

  Reading a body is compared with words: `unescape_eq_ok_iff` says which bodies an
  escaping reads, and `hostWord_iff` which bodies both end where they should and are
  read. What an escaping writes is a word again (`word_escape`), and no quote in it
  ends the literal (`body_escape`).
-/

import Polyglot.Literal.Closing
import Polyglot.Literal.Escaping

namespace Polyglot.Literal

/-- A word and the text it stands for: a `plain` character stands for itself, and a backslash
    with a letter for the character that the letter is paired with. -/
inductive Word (plain : Char → Prop) (letters : List (Char × Char)) : Text → Text → Prop
  | nil : Word plain letters [] []
  | bare {c : Char} {w t : Text} : plain c → Word plain letters w t → Word plain letters (c :: w) (c :: t)
  | escape {l c : Char} {w t : Text} : (l, c) ∈ letters → Word plain letters w t →
      Word plain letters ('\\' :: l :: w) (c :: t)

def hostLetters : List (Char × Char) := [('\\', '\\'), ('n', '\n'), ('"', '"')]

def pythonLetters : List (Char × Char) := [('\\', '\\'), ('\'', '\''), ('"', '"')]

/-- The words between double quotes; a quote does not stand for itself. -/
def HostWord : Text → Text → Prop := Word (fun c => c ≠ '\\' ∧ c ≠ '"') hostLetters

/-- The words of the Python program; only a backslash does not stand for itself. -/
def PythonWord : Text → Text → Prop := Word (fun c => c ≠ '\\') pythonLetters

/-- The letters of an escaping, listed with what they stand for. -/
def Lists (letters : List (Char × Char)) (e : Escaping) : Prop := ∀ l c, e.charOf l = some c ↔ (l, c) ∈ letters

theorem lists_host : Lists hostLetters .host := by
  intro l c
  simp only [Escaping.host, hostLetters, List.mem_cons, Prod.mk.injEq, List.not_mem_nil, or_false]
  grind

theorem lists_python : Lists pythonLetters .python := by
  intro l c
  simp only [Escaping.python, pythonLetters, List.mem_cons, Prod.mk.injEq, List.not_mem_nil, or_false]
  grind

/-! ## Words -/

variable {plain plain' : Char → Prop} {letters : List (Char × Char)} {e : Escaping}

theorem Word.mono (h : ∀ c, plain c → plain' c) {w t : Text} (hw : Word plain letters w t) :
    Word plain' letters w t := by
  induction hw with
  | nil => exact .nil
  | bare hc _ ih => exact .bare (h _ hc) ih
  | escape hl _ ih => exact .escape hl ih

/-- What an escaping writes is a word in which no escaped character stands for itself. -/
theorem word_escape (he : Lists letters e) (t : Text) : Word (fun c => e.letterOf c = none) letters (e.escape t) t := by
  induction t with
  | nil => exact .nil
  | cons c t ih =>
    rw [Escaping.escape_cons, Escaping.unit]
    cases hc : e.letterOf c with
    | none => exact .bare hc ih
    | some l => exact .escape ((he l c).1 ((e.charOf_eq_some l c).2 hc)) ih

/-- A character that is neither escaped nor a letter stands in what is written where it stands in
    the text. -/
theorem mem_escape_iff {c : Char} (hc : e.letterOf c = none) (hl : e.charOf c = none) {t : Text} :
    c ∈ e.escape t ↔ c ∈ t := by
  have hunit (d : Char) : c ∈ e.unit d ↔ c = d := by
    rw [Escaping.unit]
    cases hd : e.letterOf d with
    | none => simp
    | some l =>
      have hb : c ≠ '\\' := by intro h; subst h; exact e.letterOf_backslash hc
      have hcl : c ≠ l := by intro h; subst h; rw [(e.charOf_eq_some c d).2 hd] at hl; cases hl
      have hcd : c ≠ d := by intro h; subst h; rw [hd] at hc; cases hc
      simp [hb, hcl, hcd]
  simp [Escaping.escape, hunit]

/-- A character that is escaped and is no letter does not stand in what is written. -/
theorem not_mem_escape {c : Char} (hc : e.letterOf c ≠ none) (hl : e.charOf c = none) (hb : c ≠ '\\') (t : Text) :
    c ∉ e.escape t := by
  intro hmem
  obtain ⟨d, -, hd⟩ := List.mem_flatMap.1 hmem
  rw [Escaping.unit] at hd
  cases hletter : e.letterOf d with
  | none =>
    rw [hletter, List.mem_singleton] at hd
    exact hc (hd ▸ hletter)
  | some l =>
    rw [hletter] at hd
    rcases List.mem_cons.1 hd with hd | hd
    · exact hb hd
    · rw [List.mem_singleton.1 hd, (e.charOf_eq_some l d).2 hletter] at hl
      cases hl

/-! ## Reading -/

/-- A word is passed over as its text, whatever follows. -/
theorem unescapeOnto_word_append (he : Lists letters e) {w t : Text} (hw : Word (fun c => c ≠ '\\') letters w t)
    (done : Text) (offset : Nat) (rest : Text) :
    e.unescapeOnto done offset (w ++ rest) = e.unescapeOnto (t.reverse ++ done) (offset + Text.byteLen w) rest := by
  induction hw generalizing done offset with
  | nil => rfl
  | bare hc _ ih => rw [List.cons_append, Escaping.unescapeOnto_of_ne e done offset hc, ih]; simp [Nat.add_assoc]
  | escape hl _ ih =>
    have hs : '\\'.utf8Size = 1 := rfl
    rw [List.cons_append, List.cons_append, Escaping.unescapeOnto_backslash, (he _ _).2 hl]
    simp [ih, hs, Nat.add_assoc]

theorem word_of_unescapeOnto (he : Lists letters e) {w t done : Text} {offset : Nat}
    (h : e.unescapeOnto done offset w = .ok t) :
    ∃ u, t = done.reverse ++ u ∧ Word (fun c => c ≠ '\\') letters w u := by
  fun_induction Escaping.unescapeOnto e done offset w with
  | case1 done offset => exact ⟨[], by simpa using (Except.ok.inj h).symm, .nil⟩
  | case2 => cases h
  | case3 done offset l rest c hl ih =>
    obtain ⟨u, ht, hu⟩ := ih h
    exact ⟨c :: u, by simpa using ht, .escape ((he l c).1 hl) hu⟩
  | case4 => cases h
  | case5 done offset c rest hc ih =>
    obtain ⟨u, ht, hu⟩ := ih h
    exact ⟨c :: u, by simpa using ht, .bare hc hu⟩

/-- The bodies that an escaping reads are the words in its letters. -/
theorem unescape_eq_ok_iff (he : Lists letters e) {w t : Text} :
    e.unescape w = .ok t ↔ Word (fun c => c ≠ '\\') letters w t := by
  constructor
  · intro h
    obtain ⟨u, rfl, hu⟩ := word_of_unescapeOnto he h
    exact hu
  · intro h
    have := unescapeOnto_word_append he h [] 0 []
    simpa [Escaping.unescape, Escaping.unescapeOnto] using this

theorem pythonWord_iff {w t : Text} : PythonWord w t ↔ Escaping.python.unescape w = .ok t :=
  (unescape_eq_ok_iff lists_python).symm

theorem Body.of_plain {c : Char} {t : Text} (h : Body (c :: t)) (hc : c ≠ '\\') : c ≠ '"' ∧ Body t := by
  cases h with
  | plain _ hq ht => exact ⟨hq, ht⟩
  | escape _ _ => exact absurd rfl hc

theorem Body.of_escape {c : Char} {t : Text} (h : Body ('\\' :: c :: t)) : Body t := by
  cases h with
  | plain hc _ _ => exact absurd rfl hc
  | escape _ ht => exact ht

theorem HostWord.word {w t : Text} (h : HostWord w t) : Word (fun c => c ≠ '\\') hostLetters w t :=
  h.mono fun _ hc => hc.1

theorem HostWord.body {w t : Text} (h : HostWord w t) : Body w := by
  induction h with
  | nil => exact .nil
  | bare hc _ ih => exact .plain hc.1 hc.2 ih
  | escape _ _ ih => exact .escape _ ih

/-- A body whose units are all in the host's letters is a word of the host. -/
theorem hostWord_of_body {w t : Text} (h : Word (fun c => c ≠ '\\') hostLetters w t) (hb : Body w) : HostWord w t := by
  induction h with
  | nil => exact .nil
  | bare hc _ ih =>
    obtain ⟨hq, hb⟩ := hb.of_plain hc
    exact .bare ⟨hc, hq⟩ (ih hb)
  | escape hl _ ih => exact .escape hl (ih hb.of_escape)

/-- The words of the host are the bodies that end at no quote of their own and are read. -/
theorem hostWord_iff {w t : Text} : HostWord w t ↔ Body w ∧ Escaping.host.unescape w = .ok t := by
  rw [unescape_eq_ok_iff lists_host]
  constructor
  · intro h
    exact ⟨h.body, h.word⟩
  · intro h
    exact hostWord_of_body h.2 h.1

/-- A word stands for one text, whichever characters are plain, as long as the backslash is not. -/
theorem Word.text_unique (he : Lists letters e) (hp : ∀ c, plain c → c ≠ '\\') {w t t' : Text}
    (h : Word plain letters w t) (h' : Word plain letters w t') : t = t' := by
  have ht := (unescape_eq_ok_iff he).2 (h.mono hp)
  have ht' := (unescape_eq_ok_iff he).2 (h'.mono hp)
  rw [ht] at ht'
  exact Except.ok.inj ht'

theorem hostWord_escape (t : Text) : HostWord (Escaping.host.escape t) t := by
  refine (word_escape lists_host t).mono fun c hc => ?_
  constructor
  · intro h; subst h; cases hc
  · intro h; subst h; cases hc

/-- No quote in what the host escaping writes ends the literal. -/
theorem body_escape (t : Text) : Body (Escaping.host.escape t) := (hostWord_escape t).body

end Polyglot.Literal
