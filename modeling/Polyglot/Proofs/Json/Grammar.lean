/-
  Polyglot.Proofs.Json.Grammar — the grammar of JSON, and where its tokens end.

  `Written s v t` is that `s` begins with `v` written in some way, and `t` is what comes
  after it. The grammar is all of JSON: blanks may stand around every token, a character
  of a string may be spelled in several ways, and numbers have fractions and exponents.
  Only a surrogate outside of a pair spells nothing, since it is no character.

  A string ends in one place (`Chars.unique`). Blanks and numbers end where something
  else begins (`Stops`), and there is one such place (`append_inj_stops`).
-/

import Polyglot.Json

namespace Polyglot.Json

/-- What a text says. A number is kept as it is written, since the grammar gives it no value. -/
inductive Value where
  | null
  | bool (b : Bool)
  | number (written : Text)
  | str (t : Text)
  | arr (items : List Value)
  | obj (fields : List (Text × Value))

/-! ## The grammar -/

def isBlank (c : Char) : Bool := c == ' ' || c == '\t' || c == '\n' || c == '\r'

/-- `s` is blanks, if any, and then `t`. -/
def Blanks (s t : Text) : Prop := ∃ w, s = w ++ t ∧ ∀ c ∈ w, isBlank c

def IsDigits (w : Text) : Prop := w ≠ [] ∧ ∀ c ∈ w, c.isDigit

/-- No zero comes before other digits. -/
inductive IsWhole : Text → Prop
  | zero : IsWhole ['0']
  | digits {c w} : c.isDigit → c ≠ '0' → (∀ d ∈ w, d.isDigit) → IsWhole (c :: w)

inductive IsFraction : Text → Prop
  | absent : IsFraction []
  | digits {w} : IsDigits w → IsFraction ('.' :: w)

inductive IsExponent : Text → Prop
  | absent : IsExponent []
  | digits {e sign w} : e ∈ ['e', 'E'] → sign ∈ [[], ['+'], ['-']] → IsDigits w → IsExponent (e :: sign ++ w)

inductive IsNumber : Text → Prop
  | mk {sign whole fraction exponent} : sign ∈ [[], ['-']] → IsWhole whole → IsFraction fraction →
    IsExponent exponent → IsNumber (sign ++ whole ++ fraction ++ exponent)

def hexDigit? (c : Char) : Option Nat :=
  if c.isDigit then some (c.toNat - 48)
  else if 'a' ≤ c ∧ c ≤ 'f' then some (c.toNat - 87)
  else if 'A' ≤ c ∧ c ≤ 'F' then some (c.toNat - 55)
  else none

/-- The number that four hexadecimal digits stand for. -/
def hex? : Text → Option Nat
  | [a, b, c, d] => do
    return (((← hexDigit? a) * 16 + (← hexDigit? b)) * 16 + (← hexDigit? c)) * 16 + (← hexDigit? d)
  | _ => none

/-- The character that is spelled by a letter after a backslash. -/
def short? : Char → Option Char
  | '"' => some '"'
  | '\\' => some '\\'
  | '/' => some '/'
  | 'b' => some '\x08'
  | 'f' => some '\x0C'
  | 'n' => some '\n'
  | 'r' => some '\r'
  | 't' => some '\t'
  | _ => none

/-- What comes after a backslash to spell a character. One that does not fit into four hexadecimal digits
    takes a pair of surrogates. -/
inductive Escaped : Text → Char → Prop
  | short {e c} : short? e = some c → Escaped [e] c
  | digits {ds c} : hex? ds = some c.toNat → Escaped ('u' :: ds) c
  | surrogates {high low c} : 0x10000 ≤ c.toNat → hex? high = some (0xD800 + (c.toNat - 0x10000) / 0x400) →
    hex? low = some (0xDC00 + (c.toNat - 0x10000) % 0x400) → Escaped ('u' :: high ++ '\\' :: 'u' :: low) c

/-- The ways to spell a character in a string. -/
inductive Spells : Text → Char → Prop
  | plain {c} : c ≠ '"' → c ≠ '\\' → 0x20 ≤ c.toNat → Spells [c] c
  | escaped {u c} : Escaped u c → Spells ('\\' :: u) c

/-- What comes after the quotation mark that opens a string. -/
inductive Chars : Text → Text → Text → Prop
  | close {t} : Chars ('"' :: t) [] t
  | cons {u c s w t} : Spells u c → Chars s w t → Chars (u ++ s) (c :: w) t

mutual

inductive Written : Text → Value → Text → Prop
  | null {t} : Written ("null".toList ++ t) .null t
  | bool {b t} : Written ((if b then "true" else "false").toList ++ t) (.bool b) t
  | number {w t} : IsNumber w → Written (w ++ t) (.number w) t
  | str {s w t} : Chars s w t → Written ('"' :: s) (.str w) t
  | noItems {s t} : Blanks s (']' :: t) → Written ('[' :: s) (.arr []) t
  | items {s vs t} : Items s vs (']' :: t) → Written ('[' :: s) (.arr vs) t
  | noFields {s t} : Blanks s ('\x7d' :: t) → Written ('\x7b' :: s) (.obj []) t
  | fields {s fs t} : Fields s fs ('\x7d' :: t) → Written ('\x7b' :: s) (.obj fs) t

/-- A value with blanks around it. -/
inductive Item : Text → Value → Text → Prop
  | mk {s u v u' t} : Blanks s u → Written u v u' → Blanks u' t → Item s v t

/-- Items with commas between them. -/
inductive Items : Text → List Value → Text → Prop
  | last {s v t} : Item s v t → Items s [v] t
  | cons {s v u vs t} : Item s v (',' :: u) → Items u vs t → Items s (v :: vs) t

inductive Field : Text → Text × Value → Text → Prop
  | mk {s k s₁ s₂ s₃ v t} : Blanks s ('"' :: s₁) → Chars s₁ k s₂ → Blanks s₂ (':' :: s₃) → Item s₃ v t →
    Field s (k, v) t

inductive Fields : Text → List (Text × Value) → Text → Prop
  | last {s f t} : Field s f t → Fields s [f] t
  | cons {s f u fs t} : Field s f (',' :: u) → Fields u fs t → Fields s (f :: fs) t

end

/-- The whole text is one value. -/
def IsText (s : Text) (v : Value) : Prop := Item s v []

variable {s s' t t' u u' w w' : Text} {c c' d : Char} {p : Char → Bool}

/-! ## Where a token ends -/

/-- No character that satisfies `p` comes first. -/
def Stops (p : Char → Bool) (t : Text) : Prop := ∀ c ∈ t.head?, p c = false

theorem stops_cons (h : p c = false) : Stops p (c :: t) := by
  intro d hd
  cases hd
  exact h

/-- The longest part that satisfies `p` ends in one place. -/
theorem append_inj_stops (h : w ++ t = w' ++ t') (hw : ∀ c ∈ w, p c) (hw' : ∀ c ∈ w', p c) (ht : Stops p t)
    (ht' : Stops p t') : w = w' ∧ t = t' := by
  induction w generalizing w' with
  | nil =>
    cases w' with
    | nil => exact ⟨rfl, h⟩
    | cons c w' =>
      subst h
      exact absurd (hw' c List.mem_cons_self) (by simp [ht c rfl])
  | cons c w ih =>
    cases w' with
    | nil =>
      subst h
      exact absurd (hw c List.mem_cons_self) (by simp [ht' c rfl])
    | cons c' w' =>
      obtain ⟨rfl, hrest⟩ := List.cons.inj h
      obtain ⟨rfl, rfl⟩ := ih hrest (fun d hd => hw d (List.mem_cons_of_mem _ hd))
        (fun d hd => hw' d (List.mem_cons_of_mem _ hd))
      exact ⟨rfl, rfl⟩

theorem Blanks.refl (t : Text) : Blanks t t := ⟨[], rfl, by simp⟩

theorem Blanks.unique (h : Blanks s t) (h' : Blanks s t') (ht : Stops isBlank t) (ht' : Stops isBlank t') :
    t = t' := by
  obtain ⟨w, hs, hw⟩ := h
  obtain ⟨w', hs', hw'⟩ := h'
  exact (append_inj_stops (hs.symm.trans hs') hw hw' ht ht').2

theorem Blanks.cons_inj (h : Blanks s (c :: t)) (h' : Blanks s (c :: t')) (hc : isBlank c = false) : t = t' :=
  (List.cons.inj (h.unique h' (stops_cons hc) (stops_cons hc))).2

/-- Blanks keep apart what they stand between. -/
theorem Blanks.stops (h : Blanks s t) (hp : ∀ c, isBlank c → p c = false) (ht : Stops p t) : Stops p s := by
  obtain ⟨w, rfl, hw⟩ := h
  cases w with
  | nil => exact ht
  | cons c w => exact stops_cons (hp c (hw c List.mem_cons_self))

/-! ## Numbers -/

/-- Whether a number can have this character in it. -/
def isNumeric (c : Char) : Bool := c.isDigit || "+-.eE".toList.contains c

theorem isNumeric_of_isDigit (h : c.isDigit) : isNumeric c := by simp [isNumeric, h]

theorem IsDigits.isNumeric (h : IsDigits w) : ∀ c ∈ w, isNumeric c := fun c hc => isNumeric_of_isDigit (h.2 c hc)

theorem IsWhole.isDigit (h : IsWhole w) : ∀ c ∈ w, c.isDigit := by
  cases h with
  | zero => exact List.forall_mem_singleton.2 rfl
  | digits hc _ hw => exact List.forall_mem_cons.2 ⟨hc, hw⟩

theorem IsFraction.isNumeric (h : IsFraction w) : ∀ c ∈ w, isNumeric c := by
  cases h with
  | absent => simp
  | digits hw => exact List.forall_mem_cons.2 ⟨by decide, hw.isNumeric⟩

theorem IsExponent.isNumeric (h : IsExponent w) : ∀ c ∈ w, isNumeric c := by
  cases h with
  | absent => simp
  | digits he hsign hw =>
    have he := List.all_eq_true.1 (by decide : ['e', 'E'].all Json.isNumeric) _ he
    have hsign := List.all_eq_true.1 (by decide : [[], ['+'], ['-']].all (·.all Json.isNumeric)) _ hsign
    exact List.forall_mem_cons.2 ⟨he, List.forall_mem_append.2 ⟨List.all_eq_true.1 hsign, hw.isNumeric⟩⟩

theorem IsNumber.isNumeric (h : IsNumber w) : ∀ c ∈ w, isNumeric c := by
  cases h with
  | mk hsign hwhole hfraction hexponent =>
    have hsign := List.all_eq_true.1 (by decide : [[], ['-']].all (·.all Json.isNumeric)) _ hsign
    have hwhole c hc := isNumeric_of_isDigit (hwhole.isDigit c hc)
    simp only [List.forall_mem_append]
    exact ⟨⟨⟨List.all_eq_true.1 hsign, hwhole⟩, hfraction.isNumeric⟩, hexponent.isNumeric⟩

/-! ## Strings -/

theorem length_of_hex? {n : Nat} (h : hex? w = some n) : w.length = 4 := by
  unfold hex? at h
  split at h
  · rfl
  · cases h

theorem hex?_inj {n n' : Nat} (h : hex? w = some n) (h' : hex? w' = some n') (ht : w ++ t = w' ++ t') :
    n = n' ∧ t = t' := by
  obtain ⟨rfl, rfl⟩ := List.append_inj ht (by rw [length_of_hex? h, length_of_hex? h'])
  exact ⟨Option.some.inj (h.symm.trans h'), rfl⟩

/-- No character has the number of a surrogate. -/
theorem toNat_ne_surrogate (c d : Char) (hd : 0x10000 ≤ d.toNat) :
    c.toNat ≠ 0xD800 + (d.toNat - 0x10000) / 0x400 := by
  have hc : c.toNat < 0xD800 ∨ 0xDFFF < c.toNat ∧ c.toNat < 0x110000 := c.valid
  have hd' : d.toNat < 0xD800 ∨ 0xDFFF < d.toNat ∧ d.toNat < 0x110000 := d.valid
  omega

theorem ne_u_of_short? (h : short? d = some c) : d ≠ 'u' := by
  rintro rfl
  cases h

theorem Escaped.unique (h : Escaped u c) (h' : Escaped u' c') (ht : u ++ t = u' ++ t') : c = c' ∧ t = t' := by
  cases h with
  | short he =>
    cases h' with
    | short he' =>
      obtain ⟨rfl, rfl⟩ := List.cons.inj ht
      exact ⟨Option.some.inj (he.symm.trans he'), rfl⟩
    | digits | surrogates => exact absurd (List.cons.inj ht).1 (ne_u_of_short? he)
  | digits hds =>
    cases h' with
    | short he' => exact absurd (List.cons.inj ht).1.symm (ne_u_of_short? he')
    | digits hds' =>
      obtain ⟨hn, rfl⟩ := hex?_inj hds hds' (List.cons.inj ht).2
      exact ⟨Char.toNat_inj.1 hn, rfl⟩
    | surrogates hc' hhigh' _ =>
      simp only [List.cons_append, List.append_assoc, List.cons.injEq, true_and] at ht
      exact absurd (hex?_inj hds hhigh' ht).1 (toNat_ne_surrogate c c' hc')
  | surrogates hc hhigh hlow =>
    cases h' with
    | short he' => exact absurd (List.cons.inj ht).1.symm (ne_u_of_short? he')
    | digits hds' =>
      simp only [List.cons_append, List.append_assoc, List.cons.injEq, true_and] at ht
      exact absurd (hex?_inj hds' hhigh ht.symm).1 (toNat_ne_surrogate c' c hc)
    | surrogates hc' hhigh' hlow' =>
      simp only [List.cons_append, List.append_assoc, List.cons.injEq, true_and] at ht
      obtain ⟨hn, ht⟩ := hex?_inj hhigh hhigh' ht
      simp only [List.cons.injEq, true_and] at ht
      obtain ⟨hm, rfl⟩ := hex?_inj hlow hlow' ht
      exact ⟨Char.toNat_inj.1 (by omega), rfl⟩

/-- What spells a character spells no other, whatever comes after it. -/
theorem Spells.unique (h : Spells u c) (h' : Spells u' c') (ht : u ++ t = u' ++ t') : c = c' ∧ t = t' := by
  cases h with
  | plain _ hc =>
    cases h' with
    | plain => exact List.cons.inj ht
    | escaped => exact absurd (List.cons.inj ht).1 hc
  | escaped h =>
    cases h' with
    | plain _ hc' => exact absurd (List.cons.inj ht).1.symm hc'
    | escaped h' => exact h.unique h' (List.cons.inj ht).2

theorem Spells.ne_quote (h : Spells u c) : u ++ s ≠ '"' :: t := by
  intro ht
  cases h with
  | plain hquote => exact hquote (List.cons.inj ht).1
  | escaped => exact absurd (List.cons.inj ht).1 (by decide)

theorem Chars.unique (h : Chars s w t) (h' : Chars s' w' t') (hs : s = s') : w = w' ∧ t = t' := by
  induction h generalizing s' w' with
  | close =>
    cases h' with
    | close => exact ⟨rfl, (List.cons.inj hs).2⟩
    | cons hc' _ => exact absurd hs.symm hc'.ne_quote
  | cons hc _ ih =>
    cases h' with
    | close => exact absurd hs hc.ne_quote
    | cons hc' h' =>
      obtain ⟨rfl, rfl⟩ := hc.unique hc' hs
      obtain ⟨rfl, rfl⟩ := ih h' rfl
      exact ⟨rfl, rfl⟩

end Polyglot.Json
