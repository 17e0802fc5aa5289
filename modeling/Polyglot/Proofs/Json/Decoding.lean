/-
  Polyglot.Proofs.Json.Decoding — data read back out of a value.

  A field is found by its key, in whatever place it stands, and a key that an object has
  twice is an error (`Value.field?`). An object that leaves out some of its fields still
  says of each key what it was made of (`field?_record`).
-/

import Polyglot.Diagnostic.Basic
import Polyglot.Proofs.Json.Printing

namespace Polyglot.Json

variable {α : Type} {key : Text} {entries : List (Text × Option Json)} {o : Option Json}

namespace Value

def text? : Value → Option Text
  | str t => some t
  | _ => none

def flag? : Value → Option Bool
  | bool b => some b
  | _ => none

def nat? : Value → Option Nat
  | number w => if w.all Char.isDigit then some (Nat.ofDigitChars 10 w 0) else none
  | _ => none

def list? (f : Value → Option α) : Value → Option (List α)
  | arr vs => vs.mapM f
  | _ => none

/-- What an object has under a key, if anything. -/
def field? (key : Text) : Value → Option (Option Value)
  | obj fs =>
    match fs.filter (·.1 == key) with
    | [] => some none
    | [f] => some (some f.2)
    | _ => none
  | _ => none

def optional? (key : Text) (f : Value → Option α) (x : Value) : Option (Option α) := do
  match ← x.field? key with
  | none => return none
  | some y => return some (← f y)

def required? (key : Text) (f : Value → Option α) (x : Value) : Option α := (x.optional? key f).join

end Value

theorem nat?_value_num (n : Nat) : (num n).value.nat? = some n := by
  have hdigits : (Text.decimal n).all Char.isDigit := List.all_eq_true.2 fun c hc =>
    Nat.isDigit_of_mem_toDigits (by decide) (by decide) hc
  rw [value, Value.nat?, if_pos hdigits, Text.decimal, Nat.ofDigitChars_ten_toDigits]

theorem list?_value_arr {f : Value → Option α} {g : α → Json} (h : ∀ a, f (g a).value = some a) (l : List α) :
    (arr (l.map g)).value.list? f = some l := by
  rw [value, Value.list?, values_eq_map, List.map_map]
  induction l with
  | nil => rfl
  | cons a l ih =>
    rw [List.map_cons, List.mapM_cons, ih, Function.comp, h]
    rfl

/-! ## Fields -/

/-- The object with these fields, those without a value left out. -/
def record (entries : List (Text × Option Json)) : Json :=
  .obj (entries.flatMap fun e => Diagnostic.optionalField e.1 e.2)

theorem filter_optionalField (key key' : Text) (o : Option Json) :
    (Diagnostic.optionalField key' o).filter (·.1 == key) =
      if key' == key then Diagnostic.optionalField key' o else [] := by
  cases o with
  | none => exact (ite_self _).symm
  | some v => exact List.filter_cons

theorem filter_flatMap_optionalField (key : Text) (entries : List (Text × Option Json)) :
    (entries.flatMap fun e => Diagnostic.optionalField e.1 e.2).filter (·.1 == key) =
      (entries.filter (·.1 == key)).flatMap fun e => Diagnostic.optionalField e.1 e.2 := by
  induction entries with
  | nil => rfl
  | cons e entries ih =>
    rw [List.flatMap_cons, List.filter_append, filter_optionalField, ih, List.filter_cons]
    split
    · rw [List.flatMap_cons]
    · rw [List.nil_append]

theorem filter_fieldValues (key : Text) (fs : List (Text × Json)) :
    (fieldValues fs).filter (·.1 == key) = fieldValues (fs.filter (·.1 == key)) := by
  simp only [fieldValues_eq_map, List.filter_map]
  rfl

/-- A key that has one entry is there with its value, or not there if it has none. -/
theorem field?_record (h : entries.filter (·.1 == key) = [(key, o)]) :
    (record entries).value.field? key = some (o.map value) := by
  rw [record, value, Value.field?, filter_fieldValues, filter_flatMap_optionalField, h]
  cases o with
  | none => rfl
  | some v => rfl

theorem optional?_record {f : Value → Option α} {g : α → Json} {a : Option α}
    (h : entries.filter (·.1 == key) = [(key, a.map g)]) (hf : ∀ a, f (g a).value = some a) :
    (record entries).value.optional? key f = some a := by
  rw [Value.optional?, field?_record h]
  cases a with
  | none => rfl
  | some a =>
    show (do return some (← f (g a).value)) = some (some a)
    rw [hf]
    rfl

theorem required?_record {f : Value → Option α} {g : α → Json} {a : α}
    (h : entries.filter (·.1 == key) = [(key, some (g a))]) (hf : ∀ a, f (g a).value = some a) :
    (record entries).value.required? key f = some a := by
  rw [Value.required?, optional?_record (a := some a) h hf]
  rfl

end Polyglot.Json
