/-
  Polyglot.Proofs.Language — the language of a path.

  ASCII letters are lowered byte by byte as they are character by character
  (`Utf8.map_lowerByte_encode`), and only ASCII is lowered to ASCII. So the language of a path
  depends on no more than the lowered bytes of its extension, be they text or not
  (`ofPath_eq`).
-/

import Mathlib.Data.List.Basic
import Polyglot.Language
import Polyglot.Literal.Closing
import Polyglot.Proofs.Extension

namespace Polyglot

namespace Utf8

/-- Lowers a byte that is an ASCII letter. -/
def lowerByte (b : UInt8) : UInt8 := if 0x41 ≤ b ∧ b ≤ 0x5A then b + 0x20 else b

theorem lowerByte_of_high {b : UInt8} (h : 0x80 ≤ b.toNat) : lowerByte b = b := by
  refine if_neg fun hletter => ?_
  have hle : b.toNat ≤ 0x5A := UInt8.le_iff_toNat_le.1 hletter.2
  omega

theorem low_of_lowerByte {b : UInt8} (h : (lowerByte b).toNat < 0x80) : b.toNat < 0x80 := by
  by_contra hhigh
  rw [lowerByte_of_high (Nat.le_of_not_lt hhigh)] at h
  exact hhigh h

/-- Nothing is lowered to what stands before the letters. -/
theorem eq_of_lowerByte_lt {b : UInt8} (h : (lowerByte b).toNat < 0x41) : lowerByte b = b := by
  refine if_neg fun hletter => ?_
  have hge : 0x41 ≤ b.toNat := UInt8.le_iff_toNat_le.1 hletter.1
  have hle : b.toNat ≤ 0x5A := UInt8.le_iff_toNat_le.1 hletter.2
  have hadd : (b + 0x20).toNat = (b.toNat + 0x20) % 256 := UInt8.toNat_add b 0x20
  rw [lowerByte, if_pos hletter, hadd] at h
  omega

theorem not_mem_of_map_lowerByte {bs bs' : Bytes} {c : UInt8} (hc : c.toNat < 0x41) (hmem : c ∉ bs)
    (h : bs.map lowerByte = bs'.map lowerByte) : c ∉ bs' := by
  have hlower : lowerByte c = c := by
    refine if_neg fun hletter => ?_
    have hge : 0x41 ≤ c.toNat := UInt8.le_iff_toNat_le.1 hletter.1
    omega
  intro hc'
  have hlowered : c ∈ bs.map lowerByte := by
    rw [h, ← hlower]
    exact List.mem_map_of_mem hc'
  obtain ⟨b, hb, rfl⟩ := List.mem_map.1 hlowered
  rw [eq_of_lowerByte_lt hc] at hmem
  exact hmem hb

theorem map_lowerByte_encodeChar_low :
    ∀ n < 0x80, (encodeChar (Char.ofNat n)).map lowerByte = encodeChar (Char.ofNat n).toLower := by
  decide +kernel

theorem map_lowerByte_encodeChar (c : Char) : (encodeChar c).map lowerByte = encodeChar c.toLower := by
  by_cases hlow : c.toNat < 0x80
  · have h := map_lowerByte_encodeChar_low c.toNat hlow
    rwa [Char.ofNat_toNat] at h
  · have hlower : c.toLower = c := by
      refine dif_neg fun hletter => hlow ?_
      have hle : c.toNat ≤ 0x5A := UInt32.le_iff_toNat_le.1 hletter.2
      omega
    rcases Literal.encodeChar_ascii_or c with ⟨-, hascii⟩ | hhigh
    · exact absurd hascii hlow
    · rw [hlower, List.map_congr_left fun b hb => lowerByte_of_high (hhigh b hb), List.map_id']

theorem map_lowerByte_encode (t : Text) : (encode t).map lowerByte = encode (t.map Char.toLower) := by
  induction t with
  | nil => rfl
  | cons c t ih => rw [List.map_cons, encode_cons, encode_cons, List.map_append, map_lowerByte_encodeChar, ih]

/-- Bytes of ASCII are those of a text. -/
theorem exists_encode_of_low {bs : Bytes} (h : ∀ b ∈ bs, b.toNat < 0x80) : ∃ t, bs = encode t := by
  induction bs with
  | nil => exact ⟨[], rfl⟩
  | cons b bs ih =>
    obtain ⟨t, rfl⟩ := ih fun b' hb' => h b' (List.mem_cons_of_mem b hb')
    have hb := h b List.mem_cons_self
    refine ⟨Char.ofNat b.toNat :: t, ?_⟩
    rw [encode_cons, encodeChar_ofNat (by omega) [b] (by simp [hb])]
    rfl

theorem exists_encode_of_map_lowerByte {bs : Bytes} (h : ∀ b ∈ bs.map lowerByte, b.toNat < 0x80) :
    ∃ t, bs = encode t :=
  exists_encode_of_low fun _ hb => low_of_lowerByte (h _ (List.mem_map_of_mem hb))

end Utf8

namespace Language

variable {p : Path} {ext : Bytes}

open Utf8 (lowerByte encode)

/-- The language of an extension, given by its lowered bytes. -/
def ofLowered (bs : Bytes) : Language :=
  if bs ∈ pythonExtensions.map encode then python
  else if bs ∈ javascriptExtensions.map encode then javascript
  else unknown

theorem ofLowered_eq_python_iff {bs : Bytes} : ofLowered bs = python ↔ bs ∈ pythonExtensions.map encode := by
  unfold ofLowered
  split
  · exact iff_of_true rfl ‹_›
  · rename_i hpython
    refine iff_of_false ?_ hpython
    split
    · decide
    · decide

theorem ofLowered_eq_javascript_iff {bs : Bytes} :
    ofLowered bs = javascript ↔ bs ∈ javascriptExtensions.map encode := by
  have hdisjoint : ∀ bs ∈ pythonExtensions.map encode, bs ∉ javascriptExtensions.map encode := by decide
  unfold ofLowered
  split
  · exact iff_of_false (by decide) (hdisjoint bs ‹_›)
  · split
    · exact iff_of_true rfl ‹_›
    · exact iff_of_false (by decide) ‹_›

/-- Every extension that is read is ASCII. -/
theorem low_of_mem_extensions {bs : Bytes} (h : bs ∈ (pythonExtensions ++ javascriptExtensions).map encode) :
    ∀ b ∈ bs, b.toNat < 0x80 := by
  have hall : ((pythonExtensions ++ javascriptExtensions).map encode).all (·.all (·.toNat < 0x80)) = true := by decide
  intro b hb
  exact of_decide_eq_true (List.all_eq_true.1 (List.all_eq_true.1 hall bs h) b hb)

theorem mem_map_encode_iff {t : Text} {exts : List Text} : encode t ∈ exts.map encode ↔ t ∈ exts :=
  List.mem_map_of_injective fun _ _ h => Utf8.encode_injective h

/-- What is not text is not lowered to an extension that is read. -/
theorem ofLowered_of_not_text (h : ∀ t, ext ≠ encode t) : ofLowered (ext.map lowerByte) = unknown := by
  have hmem : ext.map lowerByte ∉ (pythonExtensions ++ javascriptExtensions).map encode := by
    intro hmem
    obtain ⟨t, ht⟩ := Utf8.exists_encode_of_map_lowerByte (low_of_mem_extensions hmem)
    exact h t ht
  rw [List.map_append, List.mem_append, not_or] at hmem
  rw [ofLowered, if_neg hmem.1, if_neg hmem.2]

/-- There is no dot at the front to be taken off. -/
theorem ofExtension_of_dot_not_mem {t : Text} (h : '.' ∉ t) : ofExtension t = ofLowered ((encode t).map lowerByte) := by
  simp only [Utf8.map_lowerByte_encode, ofLowered, mem_map_encode_iff, ofExtension]
  split
  · exact absurd List.mem_cons_self h
  · rfl

/-- The language of a path is read from the lowered bytes of its extension. -/
theorem ofPath_eq (p : Path) : ofPath p =
    match p.extension? with
    | some ext => ofLowered (ext.map lowerByte)
    | none => unknown := by
  cases hext : p.extension? with
  | none => rw [ofPath, hext, Option.map_none]
  | some ext =>
    have hdot := (Path.extension?_eq_some_iff.1 hext).1.dot_not_mem
    rw [ofPath, hext, Option.map_some]
    cases hdecode : Utf8.decode ext with
    | ok t =>
      obtain rfl := Utf8.decode_eq_ok_iff.1 hdecode
      exact ofExtension_of_dot_not_mem fun hmem => hdot (List.mem_flatMap.2 ⟨'.', hmem, List.mem_singleton.2 rfl⟩)
    | error e =>
      refine (ofLowered_of_not_text fun t ht => ?_).symm
      rw [Utf8.decode_eq_ok_iff.2 ht] at hdecode
      cases hdecode

/-- A language other than the unknown is read from an extension. -/
theorem ofPath_eq_iff {language : Language} (h : language ≠ unknown) :
    ofPath p = language ↔ ∃ ext, p.HasExtension ext ∧ ofLowered (ext.map lowerByte) = language := by
  simp only [← Path.extension?_eq_some_iff, ofPath_eq]
  cases p.extension? with
  | none => simp [h.symm]
  | some ext => simp

end Language

end Polyglot
