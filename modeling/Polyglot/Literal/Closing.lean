/-
  Polyglot.Literal.Closing — where a double-quoted literal ends.

  The search runs over the bytes of the text. A backslash takes the one byte after it
  along, which may be the first of several that make up a character; the bytes left
  over from such a character are neither quotes nor backslashes, so the search is back
  in step with the characters at once. `closing?_eq_some_iff` says so: the end found is
  the end of a `Body` read character by character.
-/

import Polyglot.Text.Utf8.Lemmas

namespace Polyglot.Literal

/-- The position of the first quote outside an escape, of bytes that start at position `pos`. -/
def closingFrom (pos : Nat) : Bytes → Option Nat
  | [] => none
  | b :: rest =>
    if b = 0x5C then
      match rest with
      | [] => none
      | _ :: rest => closingFrom (pos + 2) rest
    else if b = 0x22 then some pos
    else closingFrom (pos + 1) rest

/-- The position in `t` of the quote that ends a literal whose body starts at `start`. -/
def closing? (t : Text) (start : Nat) : Option Nat := closingFrom start ((Utf8.encode t).drop start)

/-- What can stand between the quotes of a literal: a backslash takes one character along, and
    no quote stands alone. -/
inductive Body : Text → Prop
  | nil : Body []
  | plain {c : Char} {t : Text} : c ≠ '\\' → c ≠ '"' → Body t → Body (c :: t)
  | escape (c : Char) {t : Text} : Body t → Body ('\\' :: c :: t)

/-! ## The search over bytes -/

theorem closingFrom_of_ne {b : UInt8} (h₁ : b ≠ 0x5C) (h₂ : b ≠ 0x22) (pos : Nat) (rest : Bytes) :
    closingFrom pos (b :: rest) = closingFrom (pos + 1) rest := by
  cases rest <;> simp [closingFrom, h₁, h₂]

theorem closingFrom_quote (pos : Nat) (rest : Bytes) : closingFrom pos (0x22 :: rest) = some pos := by
  cases rest with
  | nil => rfl
  | cons b rest => rfl

/-- A backslash takes the next byte along, if there is one. -/
theorem closingFrom_backslash (pos : Nat) (rest : Bytes) :
    closingFrom pos (0x5C :: rest) = closingFrom (pos + 2) (rest.drop 1) := by
  cases rest with
  | nil => rfl
  | cons b rest => rfl

theorem closingFrom_append {bs : Bytes} (h : ∀ b ∈ bs, b ≠ 0x5C ∧ b ≠ 0x22) (pos : Nat) (rest : Bytes) :
    closingFrom pos (bs ++ rest) = closingFrom (pos + bs.length) rest := by
  induction bs generalizing pos with
  | nil => rfl
  | cons b bs ih =>
    obtain ⟨h₁, h₂⟩ := h b (by simp)
    rw [List.cons_append, closingFrom_of_ne h₁ h₂, ih (fun b hb => h b (by simp [hb]))]
    simp only [List.length_cons]
    congr 1
    omega

/-- The bytes of a character are itself, if it is ASCII, or else no ASCII at all. -/
theorem encodeChar_ascii_or (c : Char) :
    Utf8.encodeChar c = [c.toNat.toUInt8] ∧ c.toNat < 0x80 ∨ ∀ b ∈ Utf8.encodeChar c, 0x80 ≤ b.toNat := by
  have hc : c.toNat < 0xD800 ∨ (0xDFFF < c.toNat ∧ c.toNat < 0x110000) := c.valid
  have hb (n : Nat) : n < 0x100 → n.toUInt8.toNat = n := Utf8.toNat_toUInt8
  simp only [Utf8.encodeChar]
  generalize c.toNat = v at hc ⊢
  split
  · exact .inl ⟨rfl, ‹_›⟩
  · refine .inr fun b hmem => ?_
    split at hmem
    · simp only [List.mem_cons, List.not_mem_nil, or_false] at hmem
      rcases hmem with rfl | rfl <;> rw [hb _ (by omega)] <;> omega
    · split at hmem
      · simp only [List.mem_cons, List.not_mem_nil, or_false] at hmem
        rcases hmem with rfl | rfl | rfl <;> rw [hb _ (by omega)] <;> omega
      · simp only [List.mem_cons, List.not_mem_nil, or_false] at hmem
        rcases hmem with rfl | rfl | rfl | rfl <;> rw [hb _ (by omega)] <;> omega

theorem ne_of_mem_encodeChar {c : Char} (h₁ : c ≠ '\\') (h₂ : c ≠ '"') :
    ∀ b ∈ Utf8.encodeChar c, b ≠ 0x5C ∧ b ≠ 0x22 := by
  intro b hb
  rcases encodeChar_ascii_or c with ⟨hc, hv⟩ | hall
  · rw [hc, List.mem_singleton] at hb
    subst hb
    have hn := Utf8.toNat_toUInt8 (n := c.toNat) (by omega)
    refine ⟨fun h => h₁ ?_, fun h => h₂ ?_⟩ <;> rw [h] at hn <;> exact Char.toNat_inj.1 hn.symm
  · have := hall b hb
    exact ⟨by intro hx; subst hx; simp at this, by intro hx; subst hx; simp at this⟩

theorem closingFrom_encode_cons {c : Char} (h₁ : c ≠ '\\') (h₂ : c ≠ '"') (pos : Nat) (t : Text) :
    closingFrom pos (Utf8.encode (c :: t)) = closingFrom (pos + c.utf8Size) (Utf8.encode t) := by
  rw [Utf8.encode_cons, closingFrom_append (ne_of_mem_encodeChar h₁ h₂), Utf8.length_encodeChar]

theorem closingFrom_encode_quote (pos : Nat) (t : Text) : closingFrom pos (Utf8.encode ('"' :: t)) = some pos := by
  have h : Utf8.encodeChar '"' = [0x22] := rfl
  rw [Utf8.encode_cons, h]
  exact closingFrom_quote pos (Utf8.encode t)

/-- A backslash and the character after it are passed over together. -/
theorem closingFrom_encode_escape (pos : Nat) (c : Char) (t : Text) :
    closingFrom pos (Utf8.encode ('\\' :: c :: t)) = closingFrom (pos + (1 + c.utf8Size)) (Utf8.encode t) := by
  have h : Utf8.encodeChar '\\' = [0x5C] := rfl
  rw [Utf8.encode_cons, h, Utf8.encode_cons]
  rcases encodeChar_ascii_or c with ⟨hc, hv⟩ | hall
  · have hl := Utf8.length_encodeChar c
    rw [hc] at hl ⊢
    rw [← hl]
    simp [closingFrom]
  · obtain ⟨b, r, hbr, -⟩ := Utf8.front_encodeChar c
    have hl := Utf8.length_encodeChar c
    have hr : ∀ x ∈ r, x ≠ 0x5C ∧ x ≠ 0x22 := fun x hx => by
      have := hall x (by simp [hbr, hx])
      exact ⟨by intro hx; subst hx; simp at this, by intro hx; subst hx; simp at this⟩
    rw [hbr] at hl ⊢
    rw [← hl]
    simp only [List.cons_append, List.nil_append, closingFrom, if_true, closingFrom_append hr, List.length_cons]
    congr 1
    omega

/-! ## The search is a reading of characters -/

theorem closingFrom_encode_eq_some_iff {t : Text} {pos i : Nat} :
    closingFrom pos (Utf8.encode t) = some i ↔
      ∃ u v, t = u ++ '"' :: v ∧ Body u ∧ i = pos + Text.byteLen u := by
  induction h : t.length using Nat.strongRecOn generalizing t pos with
  | ind n ih =>
    match t with
    | [] => simp [closingFrom]
    | c :: t =>
      by_cases h₂ : c = '"'
      · subst h₂
        rw [closingFrom_encode_quote]
        constructor
        · rintro ⟨⟩
          exact ⟨[], t, rfl, .nil, rfl⟩
        · intro hx
          obtain ⟨u, v, heq, hu, rfl⟩ := hx
          cases hu with
          | nil => rfl
          | plain _ hq _ => simp only [List.cons_append, List.cons.injEq] at heq; exact absurd heq.1.symm hq
          | escape d _ => simp at heq
      by_cases h₁ : c = '\\'
      · subst h₁
        match t with
        | [] =>
          constructor
          · intro hs; cases hs
          · intro hx
            obtain ⟨u, v, heq, hu, rfl⟩ := hx
            cases hu with
            | nil => simp at heq
            | plain hb _ _ => simp only [List.cons_append, List.cons.injEq] at heq; exact absurd heq.1.symm hb
            | escape d _ => simp at heq
        | d :: t =>
          rw [closingFrom_encode_escape, ih t.length (by simp at h; omega) rfl]
          constructor
          · intro hx
            obtain ⟨u, v, rfl, hu, rfl⟩ := hx
            have hs : '\\'.utf8Size = 1 := rfl
            exact ⟨'\\' :: d :: u, v, rfl, .escape d hu, by simp [hs]; omega⟩
          · intro hx
            obtain ⟨u, v, heq, hu, rfl⟩ := hx
            cases hu with
            | nil => simp at heq
            | plain hb _ _ => simp only [List.cons_append, List.cons.injEq] at heq; exact absurd heq.1.symm hb
            | @escape e u hu =>
              simp only [List.cons_append, List.cons.injEq, true_and] at heq
              obtain ⟨rfl, rfl⟩ := heq
              have hs : '\\'.utf8Size = 1 := rfl
              exact ⟨u, v, rfl, hu, by simp [hs]; omega⟩
      · rw [closingFrom_encode_cons h₁ h₂, ih t.length (by simp at h; omega) rfl]
        constructor
        · intro hx
          obtain ⟨u, v, rfl, hu, rfl⟩ := hx
          exact ⟨c :: u, v, rfl, .plain h₁ h₂ hu, by simp; omega⟩
        · intro hx
          obtain ⟨u, v, heq, hu, rfl⟩ := hx
          cases hu with
          | nil => simp only [List.nil_append, List.cons.injEq] at heq; exact absurd heq.1 h₂
          | @plain e u _ _ hu =>
            simp only [List.cons_append, List.cons.injEq] at heq
            obtain ⟨rfl, rfl⟩ := heq
            exact ⟨u, v, rfl, hu, by simp; omega⟩
          | escape d _ => simp only [List.cons_append, List.cons.injEq] at heq; exact absurd heq.1 h₁

/-- The end found from a boundary is the end of the body there. -/
theorem closing?_eq_some_iff {s t : Text} {i : Nat} :
    closing? (s ++ t) (Text.byteLen s) = some i ↔
      ∃ u v, t = u ++ '"' :: v ∧ Body u ∧ i = Text.byteLen s + Text.byteLen u := by
  rw [closing?, Utf8.encode_append, ← Utf8.length_encode, List.drop_left, Utf8.length_encode,
    closingFrom_encode_eq_some_iff]

/-- From a boundary the search comes to a boundary, not before it. -/
theorem isBoundary_of_closing? {t : Text} {start i : Nat} (hs : Text.IsBoundary t start)
    (h : closing? t start = some i) : Text.IsBoundary t i ∧ start ≤ i := by
  obtain ⟨s, t, rfl, rfl⟩ := hs
  obtain ⟨u, v, rfl, -, rfl⟩ := closing?_eq_some_iff.1 h
  exact ⟨⟨s ++ u, '"' :: v, by simp, by simp⟩, by omega⟩

end Polyglot.Literal
