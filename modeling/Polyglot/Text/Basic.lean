/-
  Polyglot.Text.Basic — texts are lists of characters, and every position in them is
  a count of UTF-8 bytes.

  A position is a boundary (`IsBoundary`) when a character starts there or the text
  ends there. Cutting is checked: `splitBytes?` and `slice?` give `none` when a cut
  would fall inside a character or past the end, and they succeed exactly on
  boundaries (`splitBytes?_eq_some_iff`, `slice?_eq_some_iff`). `floorBoundary` is
  the greatest boundary that is not above a position (`isBoundary_floorBoundary`,
  `floorBoundary_le`, `le_floorBoundary`).
-/

namespace Polyglot

abbrev Text := List Char

abbrev Bytes := List UInt8

namespace Text

/-- The number of bytes that a text takes in UTF-8. -/
def byteLen (t : Text) : Nat := t.foldr (fun c n => c.utf8Size + n) 0

/-- A character starts `n` bytes into `t`, or `t` ends there. -/
def IsBoundary (t : Text) (n : Nat) : Prop := ∃ u v, t = u ++ v ∧ byteLen u = n

/-- The walk of `splitBytes?`; `done` holds, last first, the characters passed so far. -/
def splitBytesOnto (done : Text) : Nat → Text → Option (Text × Text)
  | 0, t => some (done.reverse, t)
  | _ + 1, [] => none
  | n + 1, c :: t => if c.utf8Size ≤ n + 1 then splitBytesOnto (c :: done) (n + 1 - c.utf8Size) t else none

/-- Cuts a text in two after `n` bytes. -/
def splitBytes? (t : Text) (n : Nat) : Option (Text × Text) := splitBytesOnto [] n t

/-- The characters between two byte positions. -/
def slice? (t : Text) (start stop : Nat) : Option Text :=
  if start ≤ stop then do
    let (_, rest) ← splitBytes? t start
    let (middle, _) ← splitBytes? rest (stop - start)
    return middle
  else none

/-- The walk of `floorBoundary` from a boundary `pos` that it has reached. -/
def floorFrom (pos n : Nat) : Text → Nat
  | [] => pos
  | c :: t => if pos + c.utf8Size ≤ n then floorFrom (pos + c.utf8Size) n t else pos

/-- The greatest boundary of `t` that is not above `n`. -/
def floorBoundary (t : Text) (n : Nat) : Nat := floorFrom 0 n t

/-- A number in decimal digits. -/
def decimal (n : Nat) : Text := Nat.toDigits 10 n

/-! ## Length -/

@[simp] theorem byteLen_nil : byteLen [] = 0 := rfl

@[simp] theorem byteLen_cons (c : Char) (t : Text) : byteLen (c :: t) = c.utf8Size + byteLen t := rfl

@[simp] theorem byteLen_append (u v : Text) : byteLen (u ++ v) = byteLen u + byteLen v := by
  induction u with
  | nil => simp
  | cons c u ih => simp [ih, Nat.add_assoc]

theorem length_le_byteLen (t : Text) : t.length ≤ byteLen t := by
  induction t with
  | nil => simp
  | cons c t ih => have := c.utf8Size_pos; simp; omega

theorem byteLen_eq_zero {t : Text} : byteLen t = 0 ↔ t = [] := by
  constructor
  · intro h
    have := length_le_byteLen t
    exact List.eq_nil_of_length_eq_zero (by omega)
  · intro hx
    rw [hx]
    rfl

/-- Two front parts of one text with the same length are the same. -/
theorem append_inj_byteLen {u v u' v' : Text} (h : u ++ v = u' ++ v') (hl : byteLen u = byteLen u') :
    u = u' ∧ v = v' := by
  induction u generalizing u' with
  | nil =>
    have : u' = [] := byteLen_eq_zero.1 (by simpa using hl.symm)
    subst this
    exact ⟨rfl, by simpa using h⟩
  | cons c u ih =>
    cases u' with
    | nil => have := c.utf8Size_pos; simp at hl; omega
    | cons d u' =>
      simp only [List.cons_append, List.cons.injEq] at h
      obtain ⟨rfl, h⟩ := h
      simp only [byteLen_cons, Nat.add_left_cancel_iff] at hl
      obtain ⟨rfl, rfl⟩ := ih h hl
      exact ⟨rfl, rfl⟩

/-! ## Cutting -/

theorem splitBytesOnto_append (done u v : Text) :
    splitBytesOnto done (byteLen u) (u ++ v) = some (done.reverse ++ u, v) := by
  induction u generalizing done with
  | nil => simp [splitBytesOnto]
  | cons c u ih =>
    have hc := c.utf8Size_pos
    obtain ⟨n, hn⟩ : ∃ n, byteLen (c :: u) = n + 1 := ⟨byteLen (c :: u) - 1, by simp; omega⟩
    have hle : c.utf8Size ≤ n + 1 := by rw [← hn]; simp
    have hsub : n + 1 - c.utf8Size = byteLen u := by rw [← hn]; simp
    rw [hn, List.cons_append, splitBytesOnto, if_pos hle, hsub, ih]
    simp

theorem eq_append_of_splitBytesOnto {done t u v : Text} {n : Nat} (h : splitBytesOnto done n t = some (u, v)) :
    ∃ w, u = done.reverse ++ w ∧ t = w ++ v ∧ byteLen w = n := by
  induction t generalizing done n with
  | nil =>
    cases n with
    | zero =>
      simp only [splitBytesOnto, Option.some.injEq, Prod.mk.injEq] at h
      exact ⟨[], by simp [h.1, ← h.2]⟩
    | succ n => simp [splitBytesOnto] at h
  | cons c t ih =>
    cases n with
    | zero =>
      simp only [splitBytesOnto, Option.some.injEq, Prod.mk.injEq] at h
      exact ⟨[], by simp [h.1, ← h.2]⟩
    | succ n =>
      rw [splitBytesOnto] at h
      split at h
      · rename_i hle
        obtain ⟨w, hu, ht, hw⟩ := ih h
        exact ⟨c :: w, by simp [hu], by simp [ht], by simp [hw]; omega⟩
      · cases h

theorem splitBytes?_eq_some_iff {t u v : Text} {n : Nat} :
    splitBytes? t n = some (u, v) ↔ t = u ++ v ∧ byteLen u = n := by
  constructor
  · intro h
    obtain ⟨w, hu, ht, hw⟩ := eq_append_of_splitBytesOnto h
    have : u = w := by simpa using hu
    subst this
    exact ⟨ht, hw⟩
  · intro hx
    obtain ⟨rfl, rfl⟩ := hx
    exact splitBytesOnto_append [] u v

theorem slice?_eq_some_iff {t m : Text} {start stop : Nat} :
    slice? t start stop = some m ↔
      ∃ u v, t = u ++ m ++ v ∧ byteLen u = start ∧ byteLen u + byteLen m = stop := by
  constructor
  · intro h
    rw [slice?] at h
    split at h
    · rename_i hle
      simp only [bind, Option.bind_eq_some_iff, Prod.exists, pure, Option.some.injEq] at h
      obtain ⟨u, r, hu, m', v, hm, rfl⟩ := h
      obtain ⟨rfl, rfl⟩ := splitBytes?_eq_some_iff.1 hu
      obtain ⟨rfl, hlen⟩ := splitBytes?_eq_some_iff.1 hm
      exact ⟨u, v, by simp, rfl, by omega⟩
    · cases h
  · intro hx
    obtain ⟨u, v, rfl, rfl, rfl⟩ := hx
    have h1 : splitBytes? (u ++ (m ++ v)) (byteLen u) = some (u, m ++ v) :=
      splitBytes?_eq_some_iff.2 ⟨rfl, rfl⟩
    have h2 : splitBytes? (m ++ v) (byteLen m) = some (m, v) := splitBytes?_eq_some_iff.2 ⟨rfl, rfl⟩
    rw [slice?, if_pos (by omega), List.append_assoc, h1, Nat.add_sub_cancel_left]
    simp [h2]

/-- A slice between two boundaries in order exists. -/
theorem isSome_slice? {t : Text} {start stop : Nat} (h : start ≤ stop) (hs : IsBoundary t start)
    (he : IsBoundary t stop) : (slice? t start stop).isSome := by
  obtain ⟨u, v, rfl, rfl⟩ := hs
  obtain ⟨u', v', hu, rfl⟩ := he
  obtain ⟨m, rfl, rfl⟩ : ∃ m, u' = u ++ m ∧ v = m ++ v' := by
    rcases List.append_eq_append_iff.1 hu with ⟨m, hm, hv⟩ | ⟨m, hm, hv⟩
    · exact ⟨m, hm, hv⟩
    · subst hm
      have : m = [] := byteLen_eq_zero.1 (by simp at h; omega)
      subst this
      exact ⟨[], by simp, by simpa using hv.symm⟩
  exact Option.isSome_iff_exists.2 ⟨m, slice?_eq_some_iff.2 ⟨u, v', by simp, rfl, by simp⟩⟩

/-! ## Boundaries -/

theorem isBoundary_zero (t : Text) : IsBoundary t 0 := ⟨[], t, rfl, rfl⟩

theorem isBoundary_byteLen (t : Text) : IsBoundary t (byteLen t) := ⟨t, [], by simp, rfl⟩

theorem IsBoundary.le_byteLen {t : Text} {n : Nat} (h : IsBoundary t n) : n ≤ byteLen t := by
  obtain ⟨u, v, rfl, rfl⟩ := h
  simp

/-- Past its first character a text has the boundaries of its rest. -/
theorem isBoundary_cons {c : Char} {t : Text} {n : Nat} :
    IsBoundary (c :: t) n ↔ n = 0 ∨ ∃ m, n = c.utf8Size + m ∧ IsBoundary t m := by
  constructor
  · intro hx
    obtain ⟨u, v, h, rfl⟩ := hx
    cases u with
    | nil => exact .inl rfl
    | cons d u =>
      simp only [List.cons_append, List.cons.injEq] at h
      obtain ⟨rfl, rfl⟩ := h
      exact .inr ⟨byteLen u, by simp, u, v, rfl, rfl⟩
  · intro hx
    rcases hx with rfl | ⟨m, rfl, u, v, rfl, rfl⟩
    · exact isBoundary_zero _
    · exact ⟨c :: u, v, rfl, by simp⟩

theorem floorFrom_spec (pos n : Nat) (t : Text) :
    ∃ m, floorFrom pos n t = pos + m ∧ IsBoundary t m ∧ (pos ≤ n → pos + m ≤ n) ∧
      ∀ k, IsBoundary t k → pos + k ≤ n → k ≤ m := by
  induction t generalizing pos with
  | nil =>
    exact ⟨0, rfl, isBoundary_zero _, id, fun k hk _ => hk.le_byteLen⟩
  | cons c t ih =>
    rw [floorFrom]
    split
    · rename_i hle
      obtain ⟨m, hm, hb, hn, hk⟩ := ih (pos + c.utf8Size)
      refine ⟨c.utf8Size + m, by omega, isBoundary_cons.2 (.inr ⟨m, rfl, hb⟩), fun _ => by have := hn hle; omega, ?_⟩
      intro k hbk hkn
      rcases isBoundary_cons.1 hbk with rfl | ⟨k', rfl, hb'⟩
      · omega
      · have := hk k' hb' (by omega); omega
    · refine ⟨0, rfl, isBoundary_zero _, id, ?_⟩
      intro k hbk hkn
      rcases isBoundary_cons.1 hbk with rfl | ⟨k', rfl, -⟩ <;> omega

theorem isBoundary_floorBoundary (t : Text) (n : Nat) : IsBoundary t (floorBoundary t n) := by
  obtain ⟨m, hm, hb, -⟩ := floorFrom_spec 0 n t
  rw [floorBoundary, hm, Nat.zero_add]
  exact hb

theorem floorBoundary_le (t : Text) (n : Nat) : floorBoundary t n ≤ n := by
  obtain ⟨m, hm, -, hn, -⟩ := floorFrom_spec 0 n t
  rw [floorBoundary, hm]
  exact hn (Nat.zero_le n)

theorem le_floorBoundary {t : Text} {n k : Nat} (hk : IsBoundary t k) (hn : k ≤ n) : k ≤ floorBoundary t n := by
  obtain ⟨m, hm, -, -, h⟩ := floorFrom_spec 0 n t
  rw [floorBoundary, hm, Nat.zero_add]
  exact h k hk (by omega)

end Text

end Polyglot
