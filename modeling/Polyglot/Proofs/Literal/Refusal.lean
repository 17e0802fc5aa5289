/-
  Polyglot.Proofs.Literal.Refusal — which bodies are not read, and where they are
  refused.

  Reading goes unit by unit, and a backslash that another one takes along starts no unit.
  It ends at the first backslash that starts a unit and is followed by no letter
  (`unescape_eq_invalidEscape_iff`) or by nothing (`unescape_eq_trailingBackslash_iff`).
  Between quotes a body never ends in such a backslash, because the backslash would have
  taken the closing quote along (`Body.not_loneBackslash`).
-/

import Polyglot.Proofs.Literal.Words

namespace Polyglot.Literal

variable {letters : List (Char × Char)} {e : Escaping} {w : Text} {offset : Nat} {l : Char}

/-- The leftmost backslash that is followed by no letter stands at `offset`, and what follows it
    is `l`. -/
def BadLetter (letters : List (Char × Char)) (w : Text) (offset : Nat) (l : Char) : Prop :=
  ∃ u t v, w = u ++ '\\' :: l :: v ∧ Word (fun c => c ≠ '\\') letters u t ∧ Text.byteLen u = offset ∧
    ∀ c, (l, c) ∉ letters

/-- After a word, a backslash is all that is left. -/
def LoneBackslash (letters : List (Char × Char)) (w : Text) : Prop :=
  ∃ u t, w = u ++ ['\\'] ∧ Word (fun c => c ≠ '\\') letters u t

/-! ## Reading stops at a fault -/

theorem charOf_eq_none_iff (he : Lists letters e) : e.charOf l = none ↔ ∀ c, (l, c) ∉ letters := by
  rw [Option.eq_none_iff_forall_ne_some]
  exact forall_congr' fun c => not_congr (he l c)

theorem unescape_of_badLetter (he : Lists letters e) (h : BadLetter letters w offset l) :
    e.unescape w = .error (.invalidEscape offset l) := by
  obtain ⟨u, t, v, rfl, hu, rfl, hl⟩ := h
  have hnone := (charOf_eq_none_iff he).2 hl
  rw [Escaping.unescape, unescapeOnto_word_append he hu, Escaping.unescapeOnto_backslash, hnone, Nat.zero_add]

theorem unescape_of_loneBackslash (he : Lists letters e) (h : LoneBackslash letters w) :
    e.unescape w = .error .trailingBackslash := by
  obtain ⟨u, t, rfl, hu⟩ := h
  rw [Escaping.unescape, unescapeOnto_word_append he hu, Escaping.unescapeOnto, if_pos rfl]

/-! ## Reading stops only there -/

theorem BadLetter.cons {c : Char} (h : BadLetter letters w offset l) (hc : c ≠ '\\') :
    BadLetter letters (c :: w) (c.utf8Size + offset) l := by
  obtain ⟨u, t, v, rfl, hu, rfl, hl⟩ := h
  exact ⟨c :: u, c :: t, v, rfl, .bare hc hu, rfl, hl⟩

theorem BadLetter.cons_escape {k c : Char} (h : BadLetter letters w offset l) (hk : (k, c) ∈ letters) :
    BadLetter letters ('\\' :: k :: w) (1 + (k.utf8Size + offset)) l := by
  obtain ⟨u, t, v, rfl, hu, rfl, hl⟩ := h
  exact ⟨'\\' :: k :: u, c :: t, v, rfl, .escape hk hu, rfl, hl⟩

theorem LoneBackslash.cons {c : Char} (h : LoneBackslash letters w) (hc : c ≠ '\\') :
    LoneBackslash letters (c :: w) := by
  obtain ⟨u, t, rfl, hu⟩ := h
  exact ⟨c :: u, c :: t, rfl, .bare hc hu⟩

theorem LoneBackslash.cons_escape {k c : Char} (h : LoneBackslash letters w) (hk : (k, c) ∈ letters) :
    LoneBackslash letters ('\\' :: k :: w) := by
  obtain ⟨u, t, rfl, hu⟩ := h
  exact ⟨'\\' :: k :: u, c :: t, rfl, .escape hk hu⟩

theorem badLetter_of_unescapeOnto (he : Lists letters e) {done : Text} {start : Nat}
    (h : e.unescapeOnto done start w = .error (.invalidEscape offset l)) :
    ∃ n, offset = start + n ∧ BadLetter letters w n l := by
  fun_induction Escaping.unescapeOnto e done start w with
  | case1 => cases h
  | case2 => cases h
  | case3 done start k rest c hk ih =>
    obtain ⟨n, rfl, hn⟩ := ih h
    exact ⟨1 + (k.utf8Size + n), by omega, hn.cons_escape ((he k c).1 hk)⟩
  | case4 done start k rest hk =>
    cases h
    exact ⟨0, rfl, [], [], rest, rfl, .nil, rfl, (charOf_eq_none_iff he).1 hk⟩
  | case5 done start c rest hc ih =>
    obtain ⟨n, rfl, hn⟩ := ih h
    exact ⟨c.utf8Size + n, Nat.add_assoc _ _ _, hn.cons hc⟩

theorem loneBackslash_of_unescapeOnto (he : Lists letters e) {done : Text} {start : Nat}
    (h : e.unescapeOnto done start w = .error .trailingBackslash) : LoneBackslash letters w := by
  fun_induction Escaping.unescapeOnto e done start w with
  | case1 => cases h
  | case2 => exact ⟨[], [], rfl, .nil⟩
  | case3 done start k rest c hk ih => exact (ih h).cons_escape ((he k c).1 hk)
  | case4 => cases h
  | case5 done start c rest hc ih => exact (ih h).cons hc

theorem unescape_eq_invalidEscape_iff (he : Lists letters e) :
    e.unescape w = .error (.invalidEscape offset l) ↔ BadLetter letters w offset l := by
  constructor
  · intro h
    obtain ⟨n, hn, hbad⟩ := badLetter_of_unescapeOnto he h
    rw [hn, Nat.zero_add]
    exact hbad
  · exact unescape_of_badLetter he

theorem unescape_eq_trailingBackslash_iff (he : Lists letters e) :
    e.unescape w = .error .trailingBackslash ↔ LoneBackslash letters w :=
  ⟨loneBackslash_of_unescapeOnto he, unescape_of_loneBackslash he⟩

/-! ## Between quotes -/

theorem Body.not_loneBackslash (hw : Body w) : ¬ LoneBackslash letters w := by
  intro h
  obtain ⟨u, t, rfl, hu⟩ := h
  induction hu with
  | nil =>
    cases hw with
    | plain hc _ _ => exact hc rfl
  | bare hc _ ih => exact ih (hw.of_plain hc).2
  | escape _ _ ih => exact ih hw.of_escape

end Polyglot.Literal
