/-
  Polyglot.Proofs.Document.Grammar — which texts are documents, and of which programs.

  A document is put together of two words of the host, fixed parts and blanks; the
  second word stands for a statement around a word of the Python program (`Parts`).
  `read_iff_parts`: exactly these texts are read, as the programs that their words stand
  for, and a text is put together in one way only.
-/

import Mathlib.Data.List.Basic
import Polyglot.Proofs.Document.Layout
import Polyglot.Proofs.Except
import Polyglot.Proofs.Literal.Words

namespace Polyglot

open Literal (HostWord PythonWord)

namespace Document

/-- `d` is the document of `p` put together of the words `a`, `b` and `c` and the blanks `w`. -/
structure Parts (d : Text) (p : Programs) (a b c w : Text) : Prop where
  eq_append : d = "eval([\"".toList ++ a ++ "\", \"".toList ++ b ++ ("\"][".toList ++ selector ++ "])".toList) ++ w
  javascript : HostWord a p.javascript
  statement : HostWord b ("exec('''".toList ++ c ++ "''')".toList)
  python : PythonWord c p.python
  blank : w.all Text.isBlank = true

end Document

/-! ## The programs of two bodies -/

theorem Document.execBody?_eq_some_iff {statement body : Text} :
    Document.execBody? statement = some body ↔ statement = Document.execOpening ++ body ++ Document.execClosing := by
  simp only [Document.execBody?, Option.bind_eq_some_iff, List.isPrefixOf?_eq_some_iff_append_eq,
    List.isSuffixOf?_eq_some_iff_append_eq]
  constructor
  · intro hx
    obtain ⟨rest, rfl, rfl⟩ := hx
    rw [List.append_assoc]
  · intro h
    exact ⟨body ++ Document.execClosing, by rw [h, List.append_assoc], rfl⟩

theorem Programs.ofBodies_eq_ok_iff {a b : Text} {p : Programs} :
    Programs.ofBodies a b = .ok p ↔
      Escaping.host.unescape a = .ok p.javascript ∧
        ∃ c, Escaping.host.unescape b = .ok (Document.execOpening ++ c ++ Document.execClosing) ∧
          Escaping.python.unescape c = .ok p.python := by
  simp only [Programs.ofBodies, bind_eq_ok_iff, mapError_eq_ok_iff]
  constructor
  · intro h
    obtain ⟨javascript, ha, statement, hb, h⟩ := h
    cases hc : Document.execBody? statement with
    | none => rw [hc] at h; cases h
    | some c =>
      rw [hc] at h
      obtain ⟨python, hp, h⟩ := bind_eq_ok_iff.1 h
      cases h
      exact ⟨ha, c, Document.execBody?_eq_some_iff.1 hc ▸ hb, mapError_eq_ok_iff.1 hp⟩
  · intro h
    obtain ⟨ha, c, hb, hp⟩ := h
    refine ⟨_, ha, _, hb, ?_⟩
    rw [Document.execBody?_eq_some_iff.2 rfl]
    exact bind_eq_ok_iff.2 ⟨_, mapError_eq_ok_iff.2 hp, rfl⟩

namespace Document

theorem read_eq_ok_iff {d : Text} {p : Programs} :
    read d = .ok p ↔ ∃ a b, bodies d = .ok (a, b) ∧ Programs.ofBodies a b = .ok p := by
  simp only [read, bind_eq_ok_iff, Prod.exists]

/-! ## One way to put a document together -/

theorem Parts.layout {d a b c w : Text} {p : Programs} (h : Parts d p a b c w) : Layout d (.ok (a, b)) := by
  rw [h.eq_append]
  exact .complete h.javascript.body h.statement.body h.blank

theorem read_of_parts {d a b c w : Text} {p : Programs} (h : Parts d p a b c w) : read d = .ok p :=
  read_eq_ok_iff.2 ⟨a, b, bodies_eq_iff.2 h.layout, Programs.ofBodies_eq_ok_iff.2
    ⟨(Literal.hostWord_iff.1 h.javascript).2, c, (Literal.hostWord_iff.1 h.statement).2,
      Literal.pythonWord_iff.1 h.python⟩⟩

theorem exists_parts {d : Text} {p : Programs} (h : read d = .ok p) : ∃ a b c w, Parts d p a b c w := by
  obtain ⟨a, b, hab, hp⟩ := read_eq_ok_iff.1 h
  obtain ⟨ha, c, hb, hc⟩ := Programs.ofBodies_eq_ok_iff.1 hp
  cases bodies_eq_iff.1 hab with
  | @complete _ _ w hbody₁ hbody₂ hw =>
    exact ⟨a, b, c, w, rfl, Literal.hostWord_iff.2 ⟨hbody₁, ha⟩, Literal.hostWord_iff.2 ⟨hbody₂, hb⟩,
      Literal.pythonWord_iff.2 hc, hw⟩

/-- The two literals are found, and what the second stands for gives the word inside it. -/
theorem Parts.unique {d a b c w a' b' c' w' : Text} {p p' : Programs} (h : Parts d p a b c w)
    (h' : Parts d p' a' b' c' w') : a = a' ∧ b = b' ∧ c = c' ∧ w = w' := by
  have hab := (bodies_eq_iff.2 h.layout).symm.trans (bodies_eq_iff.2 h'.layout)
  simp only [Except.ok.injEq, Prod.mk.injEq] at hab
  obtain ⟨rfl, rfl⟩ := hab
  refine ⟨rfl, rfl, ?_, ?_⟩
  · have hs := h.statement.text_unique Literal.lists_host (fun c hc => hc.1) h'.statement
    exact List.append_cancel_left (List.append_cancel_right hs)
  · exact List.append_cancel_left (h.eq_append.symm.trans h'.eq_append)

/-- A text is read exactly if it is put together of words and blanks, as the programs that the words
    stand for; and it is put together in one way only. -/
theorem read_iff_parts (d : Text) :
    (∀ p, read d = .ok p ↔ ∃ a b c w, Parts d p a b c w) ∧
      ∀ p p' a b c w a' b' c' w', Parts d p a b c w → Parts d p' a' b' c' w' →
        a = a' ∧ b = b' ∧ c = c' ∧ w = w' := by
  refine ⟨fun p => ⟨exists_parts, ?_⟩, ?_⟩
  · intro h
    obtain ⟨a, b, c, w, h⟩ := h
    exact read_of_parts h
  · intro p p' a b c w a' b' c' w' h h'
    exact h.unique h'

end Document

end Polyglot
