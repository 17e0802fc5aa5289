/-
  Polyglot.Proofs.Document.Truncation — a document that was cut off is refused where it
  was cut.

  What is left of a document ends within one of its five parts: a fixed part, the body of a
  literal, or between. A fixed part that is not whole is missed at its start. Of a body that
  is not whole no quote is the end (`unclosed_of_isPrefix`), also when the cut has parted a
  backslash from what it takes along. So the fault tells the part (`read_of_cut`).
-/

import Mathlib.Data.List.Basic
import Polyglot.Proofs.Document.Layout
import Polyglot.Proofs.Literal.Words

namespace Polyglot

/-! ## Prefixes -/

section Prefix

variable {α : Type} {t x y : List α}

theorem prefix_append_cases (h : t <+: x ++ y) : (t <+: x ∧ t ≠ x) ∨ ∃ r, t = x ++ r ∧ r <+: y := by
  rcases List.prefix_or_prefix_of_prefix h (List.prefix_append x y) with hx | ⟨r, rfl⟩
  · by_cases heq : t = x
    · exact Or.inr ⟨[], by rw [heq, List.append_nil], List.nil_prefix⟩
    · exact Or.inl ⟨hx, heq⟩
  · exact Or.inr ⟨r, rfl, (List.prefix_append_right_inj x).1 h⟩

theorem prefix_append_cases_ne_nil (h : t <+: x ++ y) : t <+: x ∨ ∃ r, r ≠ [] ∧ t = x ++ r ∧ r <+: y := by
  rcases prefix_append_cases h with ⟨hx, -⟩ | ⟨r, rfl, hr⟩
  · exact Or.inl hx
  · by_cases hnil : r = []
    · subst hnil
      rw [List.append_nil]
      exact Or.inl List.prefix_rfl
    · exact Or.inr ⟨r, hnil, rfl, hr⟩

theorem not_prefix_of_prefix_of_ne (h : t <+: x) (hne : t ≠ x) : ¬ x <+: t := fun hx =>
  hne (h.eq_of_length_le hx.length_le)

end Prefix

theorem Text.byteLen_le_of_prefix {t x : Text} (h : t <+: x) : byteLen t ≤ byteLen x := by
  obtain ⟨r, rfl⟩ := h
  rw [byteLen_append]
  exact Nat.le_add_right _ _

theorem Text.byteLen_lt_of_prefix {t x : Text} (h : t <+: x) (hne : t ≠ x) : byteLen t < byteLen x := by
  obtain ⟨r, rfl⟩ := h
  have hr : byteLen r ≠ 0 := fun hr => hne (by rw [byteLen_eq_zero.1 hr, List.append_nil])
  rw [byteLen_append]
  omega

/-! ## Bodies that were cut -/

theorem Literal.Body.not_append_quote {u : Text} (h : Body u) (v : Text) : ¬ Body (u ++ '"' :: v) := by
  induction h with
  | nil =>
    intro hv
    exact (hv.of_plain (by decide)).1 rfl
  | plain hc _ _ ih =>
    intro hv
    exact ih (hv.of_plain hc).2
  | escape _ _ ih =>
    intro hv
    exact ih hv.of_escape

namespace Document

open Literal (Body closing?)
open Text (byteLen)

/-- Only its own quote ends a body, so none in a part of it does. -/
theorem unclosed_of_isPrefix {a r : Text} (ha : Body a) (h : r <+: a) : Unclosed r := by
  intro u v hr hu
  obtain ⟨s, rfl⟩ := h
  apply hu.not_append_quote (v ++ s)
  rw [hr, List.append_assoc, List.cons_append] at ha
  exact ha

/-! ## Documents that were cut -/

/-- The fault of the first `n` bytes of a document whose literals end at `q₁` and `q₂`. -/
def cutFault (q₁ q₂ n : Nat) : ReadError :=
  if n < 7 then .missingOpening
  else if n ≤ q₁ then .unterminated 6
  else if n < q₁ + 4 then .missingSeparator q₁
  else if n ≤ q₂ then .unterminated (q₁ + 3)
  else .missingClosing q₂

theorem byteLen_opening : byteLen opening = 7 := by decide

theorem byteLen_separator : byteLen separator = 4 := by decide

/-- What is left of a document with the bodies `a` and `b`, by the part that it ends in. -/
inductive Cut (a b : Text) : Text → Prop
  | opening {r : Text} : r <+: opening → r ≠ opening → Cut a b r
  | first {r : Text} : r <+: a → Cut a b (opening ++ r)
  | separator {r : Text} : r ≠ [] → r <+: separator → r ≠ separator → Cut a b (opening ++ a ++ r)
  | second {r : Text} : r <+: b → Cut a b (opening ++ a ++ separator ++ r)
  | closing {r : Text} : r ≠ [] → r <+: closing → r ≠ closing → Cut a b (opening ++ a ++ separator ++ b ++ r)

theorem cut_of_isPrefix {a b t : Text} (h : t <+: opening ++ (a ++ (separator ++ (b ++ closing))))
    (hne : t ≠ opening ++ (a ++ (separator ++ (b ++ closing)))) : Cut a b t := by
  rcases prefix_append_cases h with ⟨h₁, hlt⟩ | ⟨r₁, rfl, h₁⟩
  · exact .opening h₁ hlt
  rcases prefix_append_cases_ne_nil h₁ with h₂ | ⟨r₂, hnil₂, rfl, h₂⟩
  · exact .first h₂
  rw [← List.append_assoc] at hne ⊢
  rcases prefix_append_cases h₂ with ⟨h₃, hlt⟩ | ⟨r₃, rfl, h₃⟩
  · exact .separator hnil₂ h₃ hlt
  rw [← List.append_assoc] at hne ⊢
  rcases prefix_append_cases_ne_nil h₃ with h₄ | ⟨r₄, hnil₄, rfl, h₄⟩
  · exact .second h₄
  rw [← List.append_assoc] at hne ⊢
  refine .closing hnil₄ h₄ fun heq => hne ?_
  rw [heq]
  simp only [List.append_assoc]

theorem exists_quote_cons {r part : Text} (hnil : r ≠ []) (h : r <+: '"' :: part) : ∃ r', r = '"' :: r' := by
  obtain ⟨r', rfl, -⟩ := (List.prefix_cons_iff.1 h).resolve_left hnil
  exact ⟨r', rfl⟩

theorem layout_of_cut {a b t : Text} (h : Cut a b t) (ha : Body a) (hb : Body b) :
    Layout t (.error (cutFault (7 + byteLen a) (7 + byteLen a + 4 + byteLen b) (byteLen t))) := by
  have hopening := byteLen_opening
  have hseparator := byteLen_separator
  cases h with
  | opening h hne =>
    have hn := Text.byteLen_lt_of_prefix h hne
    rw [cutFault, if_pos (by omega)]
    exact .missingOpening (not_prefix_of_prefix_of_ne h hne)
  | first h =>
    have hn := Text.byteLen_le_of_prefix h
    simp only [Text.byteLen_append]
    rw [cutFault, if_neg (by omega), if_pos (by omega)]
    exact .firstUnclosed (unclosed_of_isPrefix ha h)
  | separator hnil h hne =>
    have hn := Text.byteLen_lt_of_prefix h hne
    have hpos := mt Text.byteLen_eq_zero.1 hnil
    simp only [Text.byteLen_append]
    rw [cutFault, if_neg (by omega), if_neg (by omega), if_pos (by omega), ← hopening, ← Text.byteLen_append]
    obtain ⟨r, rfl⟩ := exists_quote_cons hnil h
    exact .missingSeparator ha (not_prefix_of_prefix_of_ne h hne)
  | second h =>
    have hn := Text.byteLen_le_of_prefix h
    have hl := Layout.secondUnclosed ha (unclosed_of_isPrefix hb h)
    simp only [Text.byteLen_append, hopening, hseparator] at hl ⊢
    rw [cutFault, if_neg (by omega), if_neg (by omega), if_neg (by omega), if_pos (by omega)]
    exact hl
  | closing hnil h hne =>
    have hpos := mt Text.byteLen_eq_zero.1 hnil
    obtain ⟨r, rfl⟩ := exists_quote_cons hnil h
    have htrim : Text.trimEnd ('"' :: r) ≠ closing := by
      intro htrim
      obtain ⟨w, hw, -⟩ := eq_closing_append htrim
      exact not_prefix_of_prefix_of_ne h hne ⟨w, hw.symm⟩
    have hl := Layout.missingClosing ha hb htrim
    simp only [Text.byteLen_append, hopening, hseparator] at hl ⊢
    rw [cutFault, if_neg (by omega), if_neg (by omega), if_neg (by omega), if_neg (by omega)]
    exact hl

/-- Where the quote stands that ends the first literal of the document of `p`. -/
def firstEnd (p : Programs) : Nat := 7 + byteLen (Escaping.host.escape p.javascript)

/-- Where the quote stands that ends the second literal of the document of `p`. -/
def secondEnd (p : Programs) : Nat := firstEnd p + 4 + byteLen (Escaping.host.escape (execStatement p.python))

theorem encode_eq (p : Programs) :
    encode p = opening ++ (Escaping.host.escape p.javascript ++
      (separator ++ (Escaping.host.escape (execStatement p.python) ++ closing))) := by
  simp only [encode, List.append_assoc]

theorem closing?_encode (p : Programs) :
    closing? (encode p) 7 = some (firstEnd p) ∧ closing? (encode p) (firstEnd p + 4) = some (secondEnd p) := by
  have h₁ := (literal_at (d := encode p) (s := opening)
    (v := ", \"".toList ++ (Escaping.host.escape (execStatement p.python) ++ closing))
    (by rw [encode_eq, List.append_assoc]; rfl) (Literal.body_escape p.javascript)).2.1
  have h₂ := (literal_at (d := encode p) (s := opening ++ Escaping.host.escape p.javascript ++ separator)
    (v := "][".toList ++ selector ++ "])".toList) rfl (Literal.body_escape (execStatement p.python))).2.1
  simp only [Text.byteLen_append, byteLen_opening, byteLen_separator] at h₁ h₂
  exact ⟨h₁, h₂⟩

/-- What is left of the document of two programs when it is cut off is refused, and the fault tells
    in which part of the document the cut is. -/
theorem read_of_cut {p : Programs} {t : Text} (h : t <+: encode p) (hne : t ≠ encode p) :
    closing? (encode p) 7 = some (firstEnd p) ∧ closing? (encode p) (firstEnd p + 4) = some (secondEnd p) ∧
      read t = .error (cutFault (firstEnd p) (secondEnd p) (byteLen t)) := by
  rw [encode_eq] at h hne
  have hl := layout_of_cut (cut_of_isPrefix h hne) (Literal.body_escape _) (Literal.body_escape _)
  refine ⟨(closing?_encode p).1, (closing?_encode p).2, ?_⟩
  rw [read, bodies_eq_iff.2 hl]
  rfl

def quotePrograms : Programs := { python := "'".toList, javascript := "\"".toList }

/-- Cut within the second literal, after the first of two backslashes. -/
def partedDocument : Text := "eval([\"\\\"\", \"exec('''\\".toList

theorem read_of_cut_parted :
    partedDocument <+: encode quotePrograms ∧ partedDocument ≠ encode quotePrograms ∧
      read partedDocument = .error (.unterminated 12) := by
  have hcut : partedDocument <+: encode quotePrograms := by decide
  have hne : partedDocument ≠ encode quotePrograms := by decide
  refine ⟨hcut, hne, ?_⟩
  rw [(read_of_cut hcut hne).2.2]
  rfl

end Document

end Polyglot
