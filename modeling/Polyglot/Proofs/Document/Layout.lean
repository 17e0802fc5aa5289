/-
  Polyglot.Proofs.Document.Layout — how far a text is like a document, and what finding
  its two literals comes to.

  `Layout` has one case for each point where a text can stop being like a document, and
  one for a text that never does. Every text is in a case (`exists_layout`), and
  `bodies` gives the answer of the case that the text is in (`bodies_eq_iff`).
-/

import Polyglot.Document.Reading

namespace Polyglot.Document

open Literal (Body closing?)
open Text (byteLen slice? trimEnd isBlank)

/-- No quote in `r` ends a body that starts with `r`. -/
def Unclosed (r : Text) : Prop := ∀ u v, r = u ++ '"' :: v → ¬ Body u

/-- What the answer for a text is, by how far the text is like a document. -/
inductive Layout : Text → Except ReadError (Text × Text) → Prop
  | missingOpening {d : Text} : ¬ opening <+: d → Layout d (.error .missingOpening)
  | firstUnclosed {r : Text} : Unclosed r →
      Layout (opening ++ r) (.error (.unterminated (byteLen opening - 1)))
  | missingSeparator {a r : Text} : Body a → ¬ separator <+: '"' :: r →
      Layout (opening ++ a ++ '"' :: r) (.error (.missingSeparator (byteLen (opening ++ a))))
  | secondUnclosed {a r : Text} : Body a → Unclosed r →
      Layout (opening ++ a ++ separator ++ r) (.error (.unterminated (byteLen (opening ++ a ++ separator) - 1)))
  | missingClosing {a b r : Text} : Body a → Body b → trimEnd ('"' :: r) ≠ closing →
      Layout (opening ++ a ++ separator ++ b ++ '"' :: r)
        (.error (.missingClosing (byteLen (opening ++ a ++ separator ++ b))))
  | complete {a b w : Text} : Body a → Body b → w.all isBlank = true →
      Layout (opening ++ a ++ separator ++ b ++ closing ++ w) (.ok (a, b))

/-! ## The fixed parts -/

theorem isPrefixOf_append (p r : Text) : p.isPrefixOf (p ++ r) = true :=
  List.isPrefixOf_iff_prefix.2 (List.prefix_append p r)

theorem isPrefixOf_eq_false {p t : Text} (h : ¬ p <+: t) : p.isPrefixOf t = false := by
  rw [← List.isPrefixOf_iff_prefix, Bool.not_eq_true] at h
  exact h

theorem separator_append (r : Text) : separator ++ r = '"' :: (", \"".toList ++ r) := rfl

theorem closing_append (w : Text) : closing ++ w = '"' :: ("][".toList ++ selector ++ "])".toList ++ w) := rfl

theorem trimEnd_closing_append {w : Text} (h : w.all isBlank = true) : trimEnd (closing ++ w) = closing := by
  rw [Text.trimEnd_append_of_blank _ h]
  rfl

theorem eq_closing_append {r : Text} (h : trimEnd r = closing) : ∃ w, r = closing ++ w ∧ w.all isBlank = true := by
  obtain ⟨w, hr, hw⟩ := Text.eq_trimEnd_append r
  rw [h] at hr
  exact ⟨w, hr, hw⟩

/-! ## One literal -/

theorem closing?_of_unclosed (s : Text) {r : Text} (h : Unclosed r) : closing? (s ++ r) (byteLen s) = none := by
  cases hc : closing? (s ++ r) (byteLen s) with
  | none => rfl
  | some i =>
    obtain ⟨u, v, hr, hu, -⟩ := Literal.closing?_eq_some_iff.1 hc
    exact absurd hu (h u v hr)

/-- Where a body starts, its end is found, and it and what comes after it are slices. -/
theorem literal_at {d s u v : Text} (hd : d = s ++ u ++ '"' :: v) (hu : Body u) :
    s.isPrefixOf d = true ∧ closing? d (byteLen s) = some (byteLen (s ++ u)) ∧
      slice? d (byteLen (s ++ u)) (byteLen d) = some ('"' :: v) ∧ slice? d (byteLen s) (byteLen (s ++ u)) = some u := by
  subst hd
  refine ⟨?_, ?_, ?_, ?_⟩
  · rw [List.append_assoc]
    exact isPrefixOf_append s _
  · rw [List.append_assoc]
    exact Literal.closing?_eq_some_iff.2 ⟨u, v, rfl, hu, by simp⟩
  · exact Text.slice?_eq_some_iff.2 ⟨s ++ u, [], by simp, rfl, by rw [← Text.byteLen_append]⟩
  · exact Text.slice?_eq_some_iff.2 ⟨s, '"' :: v, rfl, rfl, by simp⟩

theorem unclosed_or (r : Text) : Unclosed r ∨ ∃ u v, r = u ++ '"' :: v ∧ Body u := by
  by_cases h : ∃ u v, r = u ++ '"' :: v ∧ Body u
  · exact Or.inr h
  · exact Or.inl fun u v hr hu => h ⟨u, v, hr, hu⟩

/-! ## The answer -/

theorem bodies?_of_layout {d : Text} {answer : Except ReadError (Text × Text)} (h : Layout d answer) :
    bodies? d = some answer := by
  cases h with
  | missingOpening hd => simp only [bodies?, isPrefixOf_eq_false hd, Bool.false_eq_true, if_false]
  | firstUnclosed hr => simp only [bodies?, isPrefixOf_append, closing?_of_unclosed opening hr, if_true]
  | @missingSeparator a r ha hs =>
    obtain ⟨h₁, h₂, h₃, -⟩ := literal_at rfl ha (s := opening) (v := r)
    simp only [bodies?, h₁, h₂, h₃, isPrefixOf_eq_false hs, if_true, Option.bind_some, Bool.false_eq_true, if_false]
  | @secondUnclosed a r ha hr =>
    have hd : opening ++ a ++ separator ++ r = opening ++ a ++ '"' :: (", \"".toList ++ r) := by
      rw [List.append_assoc, separator_append]
    obtain ⟨h₁, h₂, h₃, -⟩ := literal_at hd ha
    rw [← separator_append] at h₃
    have h₄ := closing?_of_unclosed (opening ++ a ++ separator) hr
    simp only [bodies?, h₁, h₂, h₃, h₄, isPrefixOf_append, if_true, Option.bind_some, ← Text.byteLen_append]
  | @missingClosing a b r ha hb hr =>
    have hd : opening ++ a ++ separator ++ b ++ '"' :: r =
        opening ++ a ++ '"' :: (", \"".toList ++ (b ++ '"' :: r)) := by
      rw [List.append_assoc, List.append_assoc, separator_append]
    obtain ⟨h₁, h₂, h₃, -⟩ := literal_at hd ha
    rw [← separator_append] at h₃
    obtain ⟨-, h₄, h₅, -⟩ := literal_at rfl hb (s := opening ++ a ++ separator) (v := r)
    simp only [bodies?, h₁, h₂, h₃, h₄, h₅, isPrefixOf_append, if_true, Option.bind_some, ← Text.byteLen_append, hr,
      if_false]
  | @complete a b w ha hb hw =>
    have hd : opening ++ a ++ separator ++ b ++ closing ++ w =
        opening ++ a ++ '"' :: (", \"".toList ++ (b ++ (closing ++ w))) := by
      rw [List.append_assoc, List.append_assoc, List.append_assoc, separator_append]
    have hd' : opening ++ a ++ separator ++ b ++ closing ++ w =
        opening ++ a ++ separator ++ b ++ '"' :: ("][".toList ++ selector ++ "])".toList ++ w) := by
      rw [List.append_assoc _ closing, closing_append]
    obtain ⟨h₁, h₂, h₃, h₄⟩ := literal_at hd ha
    rw [← separator_append] at h₃
    obtain ⟨-, h₅, h₆, h₇⟩ := literal_at hd' hb
    rw [← closing_append] at h₆
    simp only [bodies?, h₁, h₂, h₃, h₄, h₅, h₆, h₇, isPrefixOf_append, trimEnd_closing_append hw, if_true,
      Option.bind_some, Option.map_some, ← Text.byteLen_append]

/-- A text is in one of the cases. -/
theorem exists_layout (d : Text) : ∃ answer, Layout d answer := by
  by_cases hopen : opening <+: d
  · obtain ⟨r, rfl⟩ := hopen
    rcases unclosed_or r with hr | ⟨a, r, rfl, ha⟩
    · exact ⟨_, .firstUnclosed hr⟩
    rw [← List.append_assoc]
    by_cases hsep : separator <+: '"' :: r
    · obtain ⟨r, hr⟩ := hsep
      rw [← hr, ← List.append_assoc]
      rcases unclosed_or r with hr | ⟨b, r, rfl, hb⟩
      · exact ⟨_, .secondUnclosed ha hr⟩
      rw [← List.append_assoc]
      by_cases hclose : trimEnd ('"' :: r) = closing
      · obtain ⟨w, hr, hw⟩ := eq_closing_append hclose
        rw [hr, ← List.append_assoc]
        exact ⟨_, .complete ha hb hw⟩
      · exact ⟨_, .missingClosing ha hb hclose⟩
    · exact ⟨_, .missingSeparator ha hsep⟩
  · exact ⟨_, .missingOpening hopen⟩

theorem bodies_eq_iff {d : Text} {answer : Except ReadError (Text × Text)} : bodies d = answer ↔ Layout d answer := by
  have of_layout {answer : Except ReadError (Text × Text)} (h : Layout d answer) : bodies d = answer := by
    simp only [bodies, bodies?_of_layout h, Option.get_some]
  constructor
  · intro h
    obtain ⟨answer', h'⟩ := exists_layout d
    rw [of_layout h'] at h
    exact h ▸ h'
  · exact of_layout

end Polyglot.Document
