/-
  Polyglot.Proofs.Json.Printing — the printed form of a value is written as the grammar
  has it.

  The line breaks and the indentation are blanks, and every character of a string is
  spelled in one of the ways that it can be. So the text says the value (`isText_pretty`),
  and since a text has one meaning, nothing else (`isText_pretty_iff`).
-/

import Polyglot.Proofs.Json.Unambiguous

namespace Polyglot.Json

variable {s t u : Text} {x : Value} {vs : List Json} {fs : List (Text × Json)} {depth : Nat}

/-- A value is a number, a word, a text, or made of values. -/
theorem induction {motive : Json → Prop} (num : ∀ n, motive (.num n)) (bool : ∀ b, motive (.bool b))
    (str : ∀ t, motive (.str t)) (arr : ∀ vs, (∀ v ∈ vs, motive v) → motive (.arr vs))
    (obj : ∀ fs, (∀ f ∈ fs, motive f.2) → motive (.obj fs)) (v : Json) : motive v := by
  refine Json.rec (motive_1 := motive) (motive_2 := fun vs => ∀ v ∈ vs, motive v)
    (motive_3 := fun fs => ∀ f ∈ fs, motive f.2) (motive_4 := fun f => motive f.2)
    num bool str arr obj ?noItems ?item ?noFields ?field ?value v
  case noItems => simp
  case item => exact fun v vs hv hvs => List.forall_mem_cons.2 ⟨hv, hvs⟩
  case noFields => simp
  case field => exact fun f fs hf hfs => List.forall_mem_cons.2 ⟨hf, hfs⟩
  case value => exact fun k v hv => hv

mutual

/-- What the printed form says. -/
def value : Json → Value
  | .num n => .number (Text.decimal n)
  | .bool b => .bool b
  | .str t => .str t
  | .arr vs => .arr (values vs)
  | .obj fs => .obj (fieldValues fs)

def values : List Json → List Value
  | [] => []
  | v :: vs => v.value :: values vs

def fieldValues : List (Text × Json) → List (Text × Value)
  | [] => []
  | (k, v) :: fs => (k, v.value) :: fieldValues fs

end

theorem values_eq_map (vs : List Json) : values vs = vs.map value := by
  induction vs with
  | nil => rfl
  | cons v vs ih => rw [values, ih, List.map_cons]

theorem fieldValues_eq_map (fs : List (Text × Json)) : fieldValues fs = fs.map fun f => (f.1, f.2.value) := by
  induction fs with
  | nil => rfl
  | cons f fs ih => rw [fieldValues, ih, List.map_cons]

/-! ## Tokens -/

theorem blanks_newline (depth : Nat) (t : Text) : Blanks (newline depth ++ t) t := by
  refine ⟨newline depth, rfl, List.forall_mem_cons.2 ⟨by decide, fun c hc => ?_⟩⟩
  rw [List.eq_of_mem_replicate hc]
  decide

theorem isWhole_decimal (n : Nat) : IsWhole (Text.decimal n) := by
  induction n using Nat.strongRecOn with
  | ind n ih =>
    rw [Text.decimal, Nat.toDigits_eq_if (by decide)]
    split
    case isTrue hn =>
      by_cases h0 : n = 0
      · rw [h0]
        exact .zero
      · exact .digits (by simp [Nat.isDigit_digitChar, hn]) (mt Nat.digitChar_eq_zero.1 h0) (by simp)
    case isFalse hn =>
      have hlast : (n % 10).digitChar.isDigit := by simpa [Nat.isDigit_digitChar] using Nat.mod_lt n (by decide)
      have hinit := ih (n / 10) (by omega)
      rw [Text.decimal] at hinit
      -- The digits before the last one are a number of their own, and it is not zero.
      generalize hw : Nat.toDigits 10 (n / 10) = w at hinit
      cases hinit with
      | zero =>
        have hvalue : Nat.ofDigitChars 10 (Nat.toDigits 10 (n / 10)) 0 = n / 10 := Nat.ofDigitChars_ten_toDigits
        rw [hw] at hvalue
        have : n / 10 = 0 := hvalue.symm
        omega
      | digits hc hne hdigits =>
        exact .digits hc hne (List.forall_mem_append.2 ⟨hdigits, List.forall_mem_singleton.2 hlast⟩)

theorem isNumber_decimal (n : Nat) : IsNumber (Text.decimal n) := by
  have h := IsNumber.mk (List.mem_cons_self) (isWhole_decimal n) .absent .absent
  rwa [List.nil_append, List.append_nil, List.append_nil] at h

theorem hex?_control : ∀ n < 0x20, hex? ['0', '0', Nat.digitChar (n / 0x10), Nat.digitChar (n % 0x10)] = some n := by
  decide

theorem spells_unit (c : Char) : Spells (unit c) c := by
  unfold unit
  split
  case h_8 hquote hslash _ _ _ _ _ =>
    split
    case isTrue h => exact .escaped (.digits (hex?_control _ h))
    case isFalse h => exact .plain hquote hslash (by omega)
  all_goals exact .escaped (.short rfl)

theorem chars_flatMap_unit (w t : Text) : Chars (w.flatMap unit ++ '"' :: t) w t := by
  induction w with
  | nil => exact .close
  | cons c w ih =>
    rw [List.flatMap_cons, List.append_assoc]
    exact .cons (spells_unit c) ih

theorem quote_append (w t : Text) : quote w ++ t = '"' :: (w.flatMap unit ++ '"' :: t) := by
  simp only [quote, List.cons_append, List.append_assoc, List.nil_append]

/-! ## Values -/

/-- A list that begins with a value printed as `s`. -/
theorem items_itemsAt (hx : ∀ t, Written (s ++ t) x t)
    (hvs : ∀ v ∈ vs, ∀ depth t, Written (prettyAt depth v ++ t) v.value t) (hu : Blanks u t) :
    Items (newline depth ++ (s ++ (itemsAt depth vs ++ u))) (x :: values vs) t := by
  induction vs generalizing s x with
  | nil => exact .last (.mk (blanks_newline _ _) (hx _) hu)
  | cons v vs ih =>
    obtain ⟨hv, hvs⟩ := List.forall_mem_cons.1 hvs
    simp only [itemsAt, List.cons_append, List.append_assoc]
    exact .cons (.mk (blanks_newline _ _) (hx _) (.refl _)) (ih (hv depth) hvs)

theorem field_quote (k : Text) (hx : Written (s ++ t) x t) (hu : Blanks t u) :
    Field (newline depth ++ (quote k ++ (':' :: ' ' :: (s ++ t)))) (k, x) u := by
  have hblank : Blanks (' ' :: (s ++ t)) (s ++ t) := ⟨[' '], rfl, List.forall_mem_singleton.2 rfl⟩
  rw [quote_append]
  exact .mk (blanks_newline _ _) (chars_flatMap_unit _ _) (.refl _) (.mk hblank hx hu)

theorem fields_fieldsAt {k : Text} (hx : ∀ t, Written (s ++ t) x t)
    (hfs : ∀ f ∈ fs, ∀ depth t, Written (prettyAt depth f.2 ++ t) f.2.value t) (hu : Blanks u t) :
    Fields (newline depth ++ (quote k ++ (':' :: ' ' :: (s ++ (fieldsAt depth fs ++ u))))) ((k, x) :: fieldValues fs)
      t := by
  induction fs generalizing k s x with
  | nil => exact .last (field_quote k (hx _) hu)
  | cons f fs ih =>
    obtain ⟨hf, hfs⟩ := List.forall_mem_cons.1 hfs
    simp only [fieldsAt, List.cons_append, List.append_assoc, List.nil_append]
    exact .cons (field_quote k (hx _) (.refl _)) (ih (hf depth) hfs)

theorem written_prettyAt (v : Json) : ∀ depth t, Written (prettyAt depth v ++ t) v.value t := by
  induction v using Json.induction with
  | num n => exact fun _ _ => .number (isNumber_decimal n)
  | bool b =>
    intro _ _
    cases b with
    | false => exact .bool (b := false)
    | true => exact .bool (b := true)
  | str w =>
    intro _ t
    rw [prettyAt, quote_append]
    exact .str (chars_flatMap_unit w t)
  | arr vs ih =>
    intro depth t
    cases vs with
    | nil => exact .noItems (.refl _)
    | cons v vs =>
      obtain ⟨hv, hvs⟩ := List.forall_mem_cons.1 ih
      simp only [prettyAt, List.cons_append, List.append_assoc, List.nil_append]
      exact .items (items_itemsAt (hv _) hvs (blanks_newline _ _))
  | obj fs ih =>
    intro depth t
    cases fs with
    | nil => exact .noFields (.refl _)
    | cons f fs =>
      obtain ⟨hf, hfs⟩ := List.forall_mem_cons.1 ih
      simp only [prettyAt, List.cons_append, List.append_assoc, List.nil_append]
      exact .fields (fields_fieldsAt (hf _) hfs (blanks_newline _ _))

theorem isText_pretty (v : Json) : IsText v.pretty v.value := by
  have h := written_prettyAt v 0 []
  rw [List.append_nil] at h
  exact .mk (.refl _) h (.refl _)

theorem isText_pretty_iff (v : Json) (x : Value) : IsText v.pretty x ↔ x = v.value := by
  constructor
  · exact fun h => h.unique (isText_pretty v)
  · rintro rfl
    exact isText_pretty v

end Polyglot.Json
