/-
  Polyglot.Text.Utf8.Lemmas — the laws of reading and writing UTF-8.

  `flatMap_bytes_pieces`: the pieces of a byte string are that byte string.
  `pieces_encode_append`: a written text falls into its characters, whatever follows.
  `decode_eq_ok_iff`: `decode` accepts exactly what `encode` writes.
-/

import Polyglot.Text.Utf8.Basic

namespace Polyglot.Utf8

/-! ## One character -/

theorem length_encodeChar (c : Char) : (encodeChar c).length = c.utf8Size := by
  have hv : c.val.toNat = c.toNat := rfl
  unfold encodeChar Char.utf8Size
  simp only [UInt32.le_iff_toNat_le, hv]
  grind

theorem toNat_toUInt8 {n : Nat} (h : n < 0x100) : n.toUInt8.toNat = n := by
  simpa using Nat.mod_eq_of_lt h

/-! ## The first piece of well-formed bytes -/

theorem front_one {b : UInt8} (h : b.toNat < 0x80) (rest : Bytes) :
    front b rest = (.char (Char.ofNat b.toNat), rest) := by
  simp [front, UInt8.lt_iff_toNat_lt, h]

theorem front_two {b b₂ : UInt8} (h : 0xC2 ≤ b.toNat ∧ b.toNat < 0xE0) (h₂ : 0x80 ≤ b₂.toNat ∧ b₂.toNat < 0xC0)
    (rest : Bytes) :
    front b (b₂ :: rest) = (.char (Char.ofNat (b.toNat % 0x20 * 0x40 + payload b₂)), rest) := by
  simp only [front, secondRange, UInt8.lt_iff_toNat_lt, ← UInt8.toNat_inj, UInt8.toNat_ofNat]
  rw [if_neg (by omega), if_neg (by omega), if_pos (by omega)]
  simp only [UInt8.toNat_ofNat]
  rw [if_neg (by omega), if_pos (by omega)]

theorem isContinuation_iff {b : UInt8} : isContinuation b = true ↔ 0x80 ≤ b.toNat ∧ b.toNat < 0xC0 := by
  simp only [isContinuation, UInt8.le_iff_toNat_le, UInt8.toNat_ofNat, Bool.and_eq_true, decide_eq_true_eq]
  omega

theorem front_three {b b₂ b₃ : UInt8} (h : 0xE0 ≤ b.toNat ∧ b.toNat < 0xF0)
    (h₂ : 0x80 ≤ b₂.toNat ∧ b₂.toNat < 0xC0) (h₂' : b.toNat = 0xE0 → 0xA0 ≤ b₂.toNat)
    (h₂'' : b.toNat = 0xED → b₂.toNat < 0xA0) (h₃ : isContinuation b₃ = true) (rest : Bytes) :
    front b (b₂ :: b₃ :: rest) =
      (.char (Char.ofNat (b.toNat % 0x10 * 0x1000 + payload b₂ * 0x40 + payload b₃)), rest) := by
  have hr : ∃ lo hi, secondRange b = some (lo, hi) ∧ ¬ (b₂ < lo ∨ hi < b₂) := by
    simp only [secondRange, UInt8.lt_iff_toNat_lt, ← UInt8.toNat_inj, UInt8.toNat_ofNat]
    rw [if_neg (by omega), if_neg (by omega)]
    split
    · exact ⟨_, _, rfl, by simp only [UInt8.toNat_ofNat]; omega⟩
    · split
      · exact ⟨_, _, rfl, by simp only [UInt8.toNat_ofNat]; omega⟩
      · rw [if_pos (by omega)]
        exact ⟨_, _, rfl, by simp only [UInt8.toNat_ofNat]; omega⟩
  obtain ⟨lo, hi, hlh, hb₂⟩ := hr
  have h0 : ¬ b < 0x80 := by simp only [UInt8.lt_iff_toNat_lt, UInt8.toNat_ofNat]; omega
  have h1 : ¬ b < 0xE0 := by simp only [UInt8.lt_iff_toNat_lt, UInt8.toNat_ofNat]; omega
  have h2 : b < 0xF0 := by simp only [UInt8.lt_iff_toNat_lt, UInt8.toNat_ofNat]; omega
  simp [front, h0, h1, h2, hlh, hb₂, h₃]

theorem front_four {b b₂ b₃ b₄ : UInt8} (h : 0xF0 ≤ b.toNat ∧ b.toNat < 0xF5)
    (h₂ : 0x80 ≤ b₂.toNat ∧ b₂.toNat < 0xC0) (h₂' : b.toNat = 0xF0 → 0x90 ≤ b₂.toNat)
    (h₂'' : b.toNat = 0xF4 → b₂.toNat < 0x90) (h₃ : isContinuation b₃ = true) (h₄ : isContinuation b₄ = true)
    (rest : Bytes) :
    front b (b₂ :: b₃ :: b₄ :: rest) =
      (.char (Char.ofNat (b.toNat % 0x08 * 0x40000 + payload b₂ * 0x1000 + payload b₃ * 0x40 + payload b₄)), rest) := by
  have hr : ∃ lo hi, secondRange b = some (lo, hi) ∧ ¬ (b₂ < lo ∨ hi < b₂) := by
    simp only [secondRange, UInt8.lt_iff_toNat_lt, ← UInt8.toNat_inj, UInt8.toNat_ofNat]
    rw [if_neg (by omega), if_neg (by omega), if_neg (by omega), if_neg (by omega), if_neg (by omega)]
    split
    · exact ⟨_, _, rfl, by simp only [UInt8.toNat_ofNat]; omega⟩
    · split
      · exact ⟨_, _, rfl, by simp only [UInt8.toNat_ofNat]; omega⟩
      · rw [if_pos (by omega)]
        exact ⟨_, _, rfl, by simp only [UInt8.toNat_ofNat]; omega⟩
  obtain ⟨lo, hi, hlh, hb₂⟩ := hr
  have h0 : ¬ b < 0x80 := by simp only [UInt8.lt_iff_toNat_lt, UInt8.toNat_ofNat]; omega
  have h1 : ¬ b < 0xE0 := by simp only [UInt8.lt_iff_toNat_lt, UInt8.toNat_ofNat]; omega
  have h2 : ¬ b < 0xF0 := by simp only [UInt8.lt_iff_toNat_lt, UInt8.toNat_ofNat]; omega
  simp [front, h0, h1, h2, hlh, hb₂, h₃, h₄]

/-- A written character is the first piece, whatever follows. -/
theorem front_encodeChar (c : Char) :
    ∃ b t, encodeChar c = b :: t ∧ ∀ rest, front b (t ++ rest) = (.char c, rest) := by
  have hc : c.toNat < 0xD800 ∨ (0xDFFF < c.toNat ∧ c.toNat < 0x110000) := c.valid
  have hcv : Char.ofNat c.toNat = c := by simp
  simp only [encodeChar]
  generalize c.toNat = v at hc hcv ⊢
  have hb (n : Nat) : n < 0x100 → n.toUInt8.toNat = n := toNat_toUInt8
  have hl (n : Nat) : (0x80 + n % 0x40).toUInt8.toNat = 0x80 + n % 0x40 := hb _ (by omega)
  have hcont (n : Nat) : isContinuation (0x80 + n % 0x40).toUInt8 = true := by rw [isContinuation_iff, hl]; omega
  split
  · refine ⟨_, _, rfl, fun rest => ?_⟩
    rw [List.nil_append, front_one (by rw [hb _ (by omega)]; omega), hb _ (by omega), hcv]
  split
  · refine ⟨_, _, rfl, fun rest => ?_⟩
    have h1 := hb (0xC0 + v / 0x40) (by omega)
    rw [List.singleton_append, front_two (by rw [h1]; omega) (by rw [hl]; omega), h1, payload, hl,
      show (0xC0 + v / 0x40) % 0x20 * 0x40 + (0x80 + v % 0x40) % 0x40 = v by omega, hcv]
  split
  · refine ⟨_, _, rfl, fun rest => ?_⟩
    have h1 := hb (0xE0 + v / 0x1000) (by omega)
    rw [List.cons_append, List.singleton_append, front_three (by rw [h1]; omega) (by rw [hl]; omega)
      (by rw [h1, hl]; omega) (by rw [h1, hl]; omega) (hcont _), h1, payload, payload, hl, hl,
      show (0xE0 + v / 0x1000) % 0x10 * 0x1000 + (0x80 + v / 0x40 % 0x40) % 0x40 * 0x40 + (0x80 + v % 0x40) % 0x40 = v
        by omega, hcv]
  · refine ⟨_, _, rfl, fun rest => ?_⟩
    have h1 := hb (0xF0 + v / 0x40000) (by omega)
    rw [List.cons_append, List.cons_append, List.singleton_append, front_four (by rw [h1]; omega) (by rw [hl]; omega)
      (by rw [h1, hl]; omega) (by rw [h1, hl]; omega) (hcont _) (hcont _), h1, payload, payload, payload, hl, hl, hl,
      show (0xF0 + v / 0x40000) % 0x08 * 0x40000 + (0x80 + v / 0x1000 % 0x40) % 0x40 * 0x1000 +
        (0x80 + v / 0x40 % 0x40) % 0x40 * 0x40 + (0x80 + v % 0x40) % 0x40 = v by omega, hcv]

/-! ## The first piece of any bytes -/

theorem secondRange_bounds {b least greatest : UInt8} (h : secondRange b = some (least, greatest)) :
    0xC2 ≤ b.toNat ∧ b.toNat < 0xF5 ∧ 0x80 ≤ least.toNat ∧ greatest.toNat < 0xC0 ∧
      (b.toNat = 0xE0 → 0xA0 ≤ least.toNat) ∧ (b.toNat = 0xED → greatest.toNat < 0xA0) ∧
      (b.toNat = 0xF0 → 0x90 ≤ least.toNat) ∧ (b.toNat = 0xF4 → greatest.toNat < 0x90) := by
  simp only [secondRange, UInt8.lt_iff_toNat_lt, ← UInt8.toNat_inj, UInt8.toNat_ofNat] at h
  repeat' split at h
  all_goals simp only [Option.some.injEq, Prod.mk.injEq, reduceCtorEq] at h
  all_goals
    obtain ⟨rfl, rfl⟩ := h
    simp only [UInt8.toNat_ofNat]
    omega

theorem toNat_ofNat {v : Nat} (h : v < 0xD800 ∨ (0xDFFF < v ∧ v < 0x110000)) : (Char.ofNat v).toNat = v := by
  have hv : v.isValidChar := h
  rw [Char.ofNat, dif_pos hv]
  rfl

theorem encodeChar_ofNat {v : Nat} (hv : v < 0xD800 ∨ (0xDFFF < v ∧ v < 0x110000)) (bs : Bytes)
    (h : bs.map UInt8.toNat =
      if v < 0x80 then [v]
      else if v < 0x800 then [0xC0 + v / 0x40, 0x80 + v % 0x40]
      else if v < 0x10000 then [0xE0 + v / 0x1000, 0x80 + v / 0x40 % 0x40, 0x80 + v % 0x40]
      else [0xF0 + v / 0x40000, 0x80 + v / 0x1000 % 0x40, 0x80 + v / 0x40 % 0x40, 0x80 + v % 0x40]) :
    encodeChar (Char.ofNat v) = bs := by
  have hn : (Char.ofNat v).toNat = v := toNat_ofNat hv
  apply (List.map_inj_right fun _ _ => UInt8.toNat_inj.1).1
  rw [h, encodeChar]
  simp only [hn]
  split
  · simp only [List.map_cons, List.map_nil, toNat_toUInt8 (n := v) (by omega)]
  split
  · simp only [List.map_cons, List.map_nil]
    rw [toNat_toUInt8 (by omega), toNat_toUInt8 (by omega)]
  split
  · simp only [List.map_cons, List.map_nil]
    rw [toNat_toUInt8 (by omega), toNat_toUInt8 (by omega), toNat_toUInt8 (by omega)]
  · simp only [List.map_cons, List.map_nil]
    rw [toNat_toUInt8 (by omega), toNat_toUInt8 (by omega), toNat_toUInt8 (by omega), toNat_toUInt8 (by omega)]

/-- A piece takes exactly its own bytes. -/
theorem bytes_front_append (b : UInt8) (rest : Bytes) : (front b rest).1.bytes ++ (front b rest).2 = b :: rest := by
  unfold front
  split
  · rename_i h
    simp only [UInt8.lt_iff_toNat_lt, UInt8.toNat_ofNat] at h
    rw [Piece.bytes, encodeChar_ofNat (by omega) [b] (by simp [h])]
    rfl
  split
  · rfl
  rename_i least greatest hr
  have hb := secondRange_bounds hr
  split
  · rfl
  rename_i b₂ rest₂
  split
  · rfl
  rename_i h₂
  simp only [UInt8.lt_iff_toNat_lt] at h₂
  split
  · rename_i h
    simp only [UInt8.lt_iff_toNat_lt, UInt8.toNat_ofNat] at h
    simp only [Piece.bytes, payload]
    rw [encodeChar_ofNat (by omega) [b, b₂] (by
      rw [if_neg (by omega), if_pos (by omega)]; simp only [List.map_cons, List.map_nil, List.cons.injEq, and_true]; omega)]
    rfl
  rename_i h
  simp only [UInt8.lt_iff_toNat_lt, UInt8.toNat_ofNat] at h
  split
  · rfl
  rename_i b₃ rest₃
  split
  · rfl
  rename_i h₃
  simp only [Bool.not_eq_true', Bool.not_eq_false] at h₃
  rw [isContinuation_iff] at h₃
  split
  · rename_i h'
    simp only [UInt8.lt_iff_toNat_lt, UInt8.toNat_ofNat] at h'
    simp only [Piece.bytes, payload]
    rw [encodeChar_ofNat (by omega) [b, b₂, b₃] (by
      rw [if_neg (by omega), if_neg (by omega), if_pos (by omega)]
      simp only [List.map_cons, List.map_nil, List.cons.injEq, and_true]; omega)]
    rfl
  rename_i h'
  simp only [UInt8.lt_iff_toNat_lt, UInt8.toNat_ofNat] at h'
  split
  · rfl
  rename_i b₄ rest₄
  split
  · rfl
  rename_i h₄
  simp only [Bool.not_eq_true', Bool.not_eq_false] at h₄
  rw [isContinuation_iff] at h₄
  simp only [Piece.bytes, payload]
  rw [encodeChar_ofNat (by omega) [b, b₂, b₃, b₄] (by
    rw [if_neg (by omega), if_neg (by omega), if_neg (by omega)]
    simp only [List.map_cons, List.map_nil, List.cons.injEq, and_true]; omega)]
  rfl

/-! ## Pieces -/

theorem piecesOnto_eq (done : List Piece) (bs : Bytes) : piecesOnto done bs = done.reverse ++ pieces bs := by
  unfold pieces
  induction h : bs.length using Nat.strongRecOn generalizing bs done with
  | ind n ih =>
    cases bs with
    | nil => simp [piecesOnto]
    | cons b rest =>
      have hl := length_front_le b rest
      have hlt : (front b rest).2.length < n := by simp only [List.length_cons] at h; omega
      rw [piecesOnto, piecesOnto, ih _ hlt _ _ rfl, ih _ hlt [_] _ rfl]
      simp

@[simp] theorem pieces_nil : pieces [] = [] := by simp [pieces, piecesOnto]

theorem pieces_cons (b : UInt8) (rest : Bytes) :
    pieces (b :: rest) = (front b rest).1 :: pieces (front b rest).2 := by
  rw [pieces, piecesOnto, piecesOnto_eq]
  simp

theorem flatMap_bytes_pieces (bs : Bytes) : (pieces bs).flatMap Piece.bytes = bs := by
  induction h : bs.length using Nat.strongRecOn generalizing bs with
  | ind n ih =>
    cases bs with
    | nil => simp
    | cons b rest =>
      have hl := length_front_le b rest
      have hlt : (front b rest).2.length < n := by simp only [List.length_cons] at h; omega
      rw [pieces_cons, List.flatMap_cons, ih _ hlt _ rfl, bytes_front_append]

@[simp] theorem encode_nil : encode [] = [] := rfl

theorem encode_cons (c : Char) (t : Text) : encode (c :: t) = encodeChar c ++ encode t := rfl

theorem encode_append (s t : Text) : encode (s ++ t) = encode s ++ encode t := List.flatMap_append

theorem length_encode (t : Text) : (encode t).length = Text.byteLen t := by
  induction t with
  | nil => rfl
  | cons c t ih => simp [encode_cons, length_encodeChar, ih]

theorem pieces_encode_append (t : Text) (bs : Bytes) : pieces (encode t ++ bs) = t.map .char ++ pieces bs := by
  induction t with
  | nil => rfl
  | cons c t ih =>
    obtain ⟨b, r, hc, hf⟩ := front_encodeChar c
    rw [encode_cons, hc, List.append_assoc, List.cons_append, pieces_cons, hf, ih]
    rfl

/-! ## Reading -/

theorem charsOnto_chars (done : Text) (index : Nat) (t : Text) :
    charsOnto done index (t.map .char) = .ok (done.reverse ++ t) := by
  induction t generalizing done index with
  | nil => simp [charsOnto]
  | cons c t ih => simp [charsOnto, ih]

theorem eq_of_charsOnto {done t : Text} {index : Nat} {ps : List Piece} (h : charsOnto done index ps = .ok t) :
    ∃ u, t = done.reverse ++ u ∧ ps = u.map .char := by
  induction ps generalizing done index with
  | nil =>
    simp only [charsOnto, Except.ok.injEq] at h
    exact ⟨[], by simp [h]⟩
  | cons p ps ih =>
    cases p with
    | char c =>
      obtain ⟨u, ht, hu⟩ := ih h
      exact ⟨c :: u, by simp [ht], by simp [hu]⟩
    | broken bs => cases h
    | cut bs => cases h

theorem decode_encode (t : Text) : decode (encode t) = .ok t := by
  have h := pieces_encode_append t []
  simp only [List.append_nil, pieces_nil] at h
  rw [decode, h, charsOnto_chars]
  rfl

theorem encode_of_decode {bs : Bytes} {t : Text} (h : decode bs = .ok t) : encode t = bs := by
  obtain ⟨u, rfl, hu⟩ := eq_of_charsOnto h
  rw [← flatMap_bytes_pieces bs, hu, List.flatMap_map]
  rfl

theorem decode_eq_ok_iff {bs : Bytes} {t : Text} : decode bs = .ok t ↔ bs = encode t :=
  ⟨fun h => (encode_of_decode h).symm, fun h => h ▸ decode_encode t⟩

theorem encode_injective {s t : Text} (h : encode s = encode t) : s = t := by
  have := decode_encode s
  rw [h, decode_encode] at this
  exact (Except.ok.inj this).symm

/-- A text is shown as itself. -/
theorem lossy_encode (t : Text) : lossy (encode t) = t := by
  have h := pieces_encode_append t []
  simp only [List.append_nil, pieces_nil] at h
  rw [lossy, h, List.map_map]
  exact List.map_id t

end Polyglot.Utf8
