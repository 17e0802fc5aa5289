/-
  Polyglot.Proofs.Json.Unambiguous — a text has one meaning at most.

  Two derivations of a text agree (`IsText.unique`), whatever ways of writing they use.
  The first character of a value says of what kind it is (`Written.opens`), and what may
  come after a value or a list cannot be part of it (`Ends`, `Closes`), so both derivations
  take the same step and end it in the same place.
-/

import Polyglot.Proofs.Json.Grammar

namespace Polyglot.Json

variable {s s' t t' u w : Text} {c : Char} {p : Char → Bool} {v v' : Value} {vs : List Value}
  {f : Text × Value} {fs : List (Text × Value)}

/-! ## What may come next -/

/-- Something that can come after a value is next, or nothing. -/
def Ends (t : Text) : Prop := ∀ c ∈ t.head?, c ∈ [',', ']', '\x7d']

/-- A bracket is next, or nothing. -/
def Closes (t : Text) : Prop := ∀ c ∈ t.head?, c ∈ [']', '\x7d']

theorem ends_comma : Ends (',' :: t) := by
  intro c hc
  cases hc
  exact List.mem_cons_self

theorem closes_cons (h : c ∈ [']', '\x7d']) : Closes (c :: t) := by
  intro d hd
  cases hd
  exact h

theorem Ends.stops (h : Ends t) (hp : [',', ']', '\x7d'].any p = false) : Stops p t := fun c hc =>
  Bool.eq_false_iff.2 (List.any_eq_false.1 hp c (h c hc))

theorem Closes.ends (h : Closes t) : Ends t := fun c hc => List.mem_cons_of_mem _ (h c hc)

theorem Closes.ne_comma (h : Closes t) : t ≠ ',' :: u := by
  rintro rfl
  exact absurd (h ',' rfl) (by decide)

theorem eq_of_isBlank (h : isBlank c) : c = ' ' ∨ c = '\t' ∨ c = '\n' ∨ c = '\r' := by
  simpa only [isBlank, Bool.or_eq_true, beq_iff_eq, or_assoc] using h

theorem isNumeric_of_isBlank (c : Char) (h : isBlank c) : isNumeric c = false := by
  rcases eq_of_isBlank h with rfl | rfl | rfl | rfl <;> decide

/-! ## First characters -/

inductive Kind where
  | null
  | bool
  | number
  | str
  | arr
  | obj

def Value.kind : Value → Kind
  | null => .null
  | bool _ => .bool
  | number _ => .number
  | str _ => .str
  | arr _ => .arr
  | obj _ => .obj

/-- The kind of the values that start with this character. -/
def Kind.ofChar? : Char → Option Kind
  | 'n' => some .null
  | 't' | 'f' => some .bool
  | '"' => some .str
  | '[' => some .arr
  | '\x7b' => some .obj
  | c => if c = '-' ∨ c.isDigit then some .number else none

theorem Kind.ofChar?_eq_number (h : c = '-' ∨ c.isDigit) : ofChar? c = some .number := by
  unfold ofChar?
  split
  case h_7 => exact if_pos h
  all_goals exact absurd h (by decide)

theorem Kind.ofChar?_of_isBlank (h : isBlank c) : ofChar? c = none := by
  rcases eq_of_isBlank h with rfl | rfl | rfl | rfl <;> rfl

theorem IsNumber.exists_cons (h : IsNumber w) : ∃ c u, w = c :: u ∧ (c = '-' ∨ c.isDigit) := by
  cases h with
  | mk hsign hwhole _ _ =>
    simp only [List.mem_cons, List.not_mem_nil, or_false] at hsign
    rcases hsign with rfl | rfl
    · cases hwhole with
      | zero => exact ⟨_, _, rfl, Or.inr (by decide)⟩
      | digits hc => exact ⟨_, _, rfl, Or.inr hc⟩
    · exact ⟨_, _, rfl, Or.inl rfl⟩

/-- The first character of a value says of what kind it is. -/
theorem Written.opens (h : Written s v t) : ∃ c u, s = c :: u ∧ Kind.ofChar? c = some v.kind := by
  cases h with
  | null => exact ⟨_, _, rfl, rfl⟩
  | @bool b => cases b <;> exact ⟨_, _, rfl, rfl⟩
  | number hw =>
    obtain ⟨c, u, rfl, hc⟩ := hw.exists_cons
    exact ⟨_, _, rfl, Kind.ofChar?_eq_number hc⟩
  | str | noItems | items | noFields | fields => exact ⟨_, _, rfl, rfl⟩

theorem Written.kind_eq (h : Written s v t) (h' : Written s' v' t') (hs : s = s') : v.kind = v'.kind := by
  obtain ⟨c, u, rfl, hc⟩ := h.opens
  obtain ⟨c', u', rfl, hc'⟩ := h'.opens
  obtain ⟨rfl, rfl⟩ := List.cons.inj hs
  exact Option.some.inj (hc.symm.trans hc')

theorem Written.stops (h : Written s v t) : Stops isBlank s := by
  obtain ⟨c, u, rfl, hc⟩ := h.opens
  refine stops_cons (Bool.eq_false_iff.2 fun hblank => ?_)
  rw [Kind.ofChar?_of_isBlank hblank] at hc
  cases hc

theorem Item.not_blanks (h : Item s v t) : ¬Blanks s (']' :: u) := by
  intro hb'
  cases h with
  | mk hb hv _ =>
    obtain ⟨c, u', hcu, hc⟩ := hv.opens
    have heq := hb.unique hb' hv.stops (stops_cons (by decide))
    rw [hcu] at heq
    cases (List.cons.inj heq).1
    cases hc

theorem Field.not_blanks (h : Field s f t) : ¬Blanks s ('\x7d' :: u) := by
  intro hb'
  cases h with
  | mk hb _ _ _ =>
    have heq := hb.unique hb' (stops_cons (by decide)) (stops_cons (by decide))
    exact absurd (List.cons.inj heq).1 (by decide)

/-- Where there is a first item, the list does not close. -/
theorem Items.not_blanks (h : Items s vs t) : ¬Blanks s (']' :: u) := by
  cases h with
  | last hv => exact hv.not_blanks
  | cons hv _ => exact hv.not_blanks

theorem Fields.not_blanks (h : Fields s fs t) : ¬Blanks s ('\x7d' :: u) := by
  cases h with
  | last hf => exact hf.not_blanks
  | cons hf _ => exact hf.not_blanks

/-!
## Two derivations

By induction on the first derivation. Once the second is known to be of the same kind, only the ways to write
that kind are left, and for a list what tells them apart is whether it closes at once.
-/

theorem word_inj {b b' : Bool}
    (h : (if b then "true" else "false").toList ++ t = (if b' then "true" else "false").toList ++ t') :
    b = b' ∧ t = t' := by
  cases b <;> cases b' <;> simp at h <;> exact ⟨rfl, h⟩

mutual

/-- A value ends in one place, if no number that it ends with goes on. -/
theorem Written.unique {s s' t t' : Text} {v v' : Value} (h : Written s v t) (h' : Written s' v' t')
    (hs : s = s') (ht : Stops isNumeric t) (ht' : Stops isNumeric t') : v = v' ∧ t = t' := by
  match h, h.kind_eq h' hs with
  | .null, hk =>
    cases h' with
    | null => exact ⟨rfl, List.append_cancel_left hs⟩
    | _ => cases hk
  | .bool, hk =>
    cases h' with
    | bool =>
      obtain ⟨rfl, rfl⟩ := word_inj hs
      exact ⟨rfl, rfl⟩
    | _ => cases hk
  | .number hw, hk =>
    cases h' with
    | number hw' =>
      obtain ⟨rfl, rfl⟩ := append_inj_stops hs hw.isNumeric hw'.isNumeric ht ht'
      exact ⟨rfl, rfl⟩
    | _ => cases hk
  | .str hw, hk =>
    cases h' with
    | str hw' =>
      obtain ⟨rfl, rfl⟩ := hw.unique hw' (List.cons.inj hs).2
      exact ⟨rfl, rfl⟩
    | _ => cases hk
  | .noItems hb, hk =>
    cases h' with
    | noItems hb' =>
      obtain rfl := (List.cons.inj hs).2
      exact ⟨rfl, hb.cons_inj hb' (by decide)⟩
    | items hvs' =>
      obtain rfl := (List.cons.inj hs).2
      exact absurd hb hvs'.not_blanks
    | _ => cases hk
  | .items hvs, hk =>
    cases h' with
    | noItems hb' =>
      obtain rfl := (List.cons.inj hs).2
      exact absurd hb' hvs.not_blanks
    | items hvs' =>
      obtain ⟨rfl, heq⟩ :=
        Items.unique hvs hvs' (List.cons.inj hs).2 (closes_cons (by decide)) (closes_cons (by decide))
      exact ⟨rfl, (List.cons.inj heq).2⟩
    | _ => cases hk
  | .noFields hb, hk =>
    cases h' with
    | noFields hb' =>
      obtain rfl := (List.cons.inj hs).2
      exact ⟨rfl, hb.cons_inj hb' (by decide)⟩
    | fields hfs' =>
      obtain rfl := (List.cons.inj hs).2
      exact absurd hb hfs'.not_blanks
    | _ => cases hk
  | .fields hfs, hk =>
    cases h' with
    | noFields hb' =>
      obtain rfl := (List.cons.inj hs).2
      exact absurd hb' hfs.not_blanks
    | fields hfs' =>
      obtain ⟨rfl, heq⟩ :=
        Fields.unique hfs hfs' (List.cons.inj hs).2 (closes_cons (by decide)) (closes_cons (by decide))
      exact ⟨rfl, (List.cons.inj heq).2⟩
    | _ => cases hk
  termination_by structural h

theorem Item.unique {s s' t t' : Text} {v v' : Value} (h : Item s v t) (h' : Item s' v' t') (hs : s = s')
    (ht : Ends t) (ht' : Ends t') : v = v' ∧ t = t' := by
  match h with
  | .mk hb hv hb₁ =>
    cases h' with
    | mk hb' hv' hb₁' =>
      obtain rfl := hs
      obtain ⟨rfl, rfl⟩ := Written.unique hv hv' (hb.unique hb' hv.stops hv'.stops)
        (hb₁.stops isNumeric_of_isBlank (ht.stops (by decide)))
        (hb₁'.stops isNumeric_of_isBlank (ht'.stops (by decide)))
      exact ⟨rfl, hb₁.unique hb₁' (ht.stops (by decide)) (ht'.stops (by decide))⟩
  termination_by structural h

theorem Items.unique {s s' t t' : Text} {vs vs' : List Value} (h : Items s vs t) (h' : Items s' vs' t')
    (hs : s = s') (ht : Closes t) (ht' : Closes t') : vs = vs' ∧ t = t' := by
  match h with
  | .last hv =>
    cases h' with
    | last hv' =>
      obtain ⟨rfl, rfl⟩ := Item.unique hv hv' hs ht.ends ht'.ends
      exact ⟨rfl, rfl⟩
    | cons hv' _ => exact absurd (Item.unique hv hv' hs ht.ends ends_comma).2 ht.ne_comma
  | .cons hv h =>
    cases h' with
    | last hv' => exact absurd (Item.unique hv hv' hs ends_comma ht'.ends).2.symm ht'.ne_comma
    | cons hv' h' =>
      obtain ⟨rfl, heq⟩ := Item.unique hv hv' hs ends_comma ends_comma
      obtain ⟨rfl, rfl⟩ := Items.unique h h' (List.cons.inj heq).2 ht ht'
      exact ⟨rfl, rfl⟩
  termination_by structural h

theorem Field.unique {s s' t t' : Text} {f f' : Text × Value} (h : Field s f t) (h' : Field s' f' t') (hs : s = s')
    (ht : Ends t) (ht' : Ends t') : f = f' ∧ t = t' := by
  match h with
  | .mk hb hk hb₁ hv =>
    cases h' with
    | mk hb' hk' hb₁' hv' =>
      obtain rfl := hs
      obtain ⟨rfl, rfl⟩ := hk.unique hk' (hb.cons_inj hb' (by decide))
      obtain ⟨rfl, rfl⟩ := Item.unique hv hv' (hb₁.cons_inj hb₁' (by decide)) ht ht'
      exact ⟨rfl, rfl⟩
  termination_by structural h

theorem Fields.unique {s s' t t' : Text} {fs fs' : List (Text × Value)} (h : Fields s fs t) (h' : Fields s' fs' t')
    (hs : s = s') (ht : Closes t) (ht' : Closes t') : fs = fs' ∧ t = t' := by
  match h with
  | .last hf =>
    cases h' with
    | last hf' =>
      obtain ⟨rfl, rfl⟩ := Field.unique hf hf' hs ht.ends ht'.ends
      exact ⟨rfl, rfl⟩
    | cons hf' _ => exact absurd (Field.unique hf hf' hs ht.ends ends_comma).2 ht.ne_comma
  | .cons hf h =>
    cases h' with
    | last hf' => exact absurd (Field.unique hf hf' hs ends_comma ht'.ends).2.symm ht'.ne_comma
    | cons hf' h' =>
      obtain ⟨rfl, heq⟩ := Field.unique hf hf' hs ends_comma ends_comma
      obtain ⟨rfl, rfl⟩ := Fields.unique h h' (List.cons.inj heq).2 ht ht'
      exact ⟨rfl, rfl⟩
  termination_by structural h

end

/-- A text says one thing at most. -/
theorem IsText.unique (h : IsText s v) (h' : IsText s v') : v = v' :=
  (Item.unique h h' rfl (by simp [Ends]) (by simp [Ends])).1

end Polyglot.Json
