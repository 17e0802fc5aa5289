/-
  Polyglot.Proofs.Literal.Search — the search for the end of a literal as a loop over
  positions.

  Each turn looks at one byte. A backslash sends the loop two positions on: into the
  middle of a character, or past the end. Either way the loop moves on, so it ends, with
  what `closing?` finds (`closingWithin?_eq_some`); and from a boundary on it ends where a
  reading by characters does (`closing?_eq_some_iff_closesAt`).
-/

import Polyglot.Literal.Closing

namespace Polyglot.Literal

/-- The search from `pos` on in at most `turns` turns; `none` if the turns run out, or a byte is asked
    for that is not there. -/
def closingWithin? (bytes : Bytes) : Nat → Nat → Option (Option Nat)
  | 0, _ => none
  | turns + 1, pos =>
    if pos < bytes.length then do
      let b ← bytes[pos]?
      if b = 0x5C then closingWithin? bytes turns (pos + 2)
      else if b = 0x22 then return some pos
      else closingWithin? bytes turns (pos + 1)
    else return none

/-- Read by characters, a literal that starts at `start` ends with the quote at `stop`. -/
def ClosesAt (d : Text) (start stop : Nat) : Prop :=
  ∃ before body after, d = before ++ body ++ '"' :: after ∧ Body body ∧
    Text.byteLen before = start ∧ Text.byteLen (before ++ body) = stop

/-! ## The loop -/

/-- What one turn comes to. -/
theorem closingFrom_turn {bytes : Bytes} {pos : Nat} (h : pos < bytes.length) :
    closingFrom pos (bytes.drop pos) =
      if bytes[pos] = 0x5C then closingFrom (pos + 2) (bytes.drop (pos + 2))
      else if bytes[pos] = 0x22 then some pos
      else closingFrom (pos + 1) (bytes.drop (pos + 1)) := by
  rw [List.drop_eq_getElem_cons h]
  by_cases hbackslash : bytes[pos] = 0x5C
  · rw [if_pos hbackslash, hbackslash, closingFrom_backslash, List.drop_drop]
  rw [if_neg hbackslash]
  by_cases hquote : bytes[pos] = 0x22
  · rw [if_pos hquote, hquote, closingFrom_quote]
  · rw [if_neg hquote, closingFrom_of_ne hbackslash hquote]

/-- With more turns than there are bytes left the loop ends, and asks for no byte that is not there. -/
theorem closingWithin?_eq_some {bytes : Bytes} {turns pos : Nat} (h : bytes.length - pos < turns) :
    closingWithin? bytes turns pos = some (closingFrom pos (bytes.drop pos)) := by
  induction turns generalizing pos with
  | zero => exact absurd h (Nat.not_lt_zero _)
  | succ turns ih =>
    unfold closingWithin?
    by_cases hpos : pos < bytes.length
    · rw [if_pos hpos, List.getElem?_eq_getElem hpos, closingFrom_turn hpos]
      show (if bytes[pos] = 0x5C then closingWithin? bytes turns (pos + 2)
        else if bytes[pos] = 0x22 then some (some pos) else closingWithin? bytes turns (pos + 1)) = _
      split
      · exact ih (by omega)
      split
      · rfl
      · exact ih (by omega)
    · rw [if_neg hpos, List.drop_eq_nil_of_le (by omega)]
      rfl

/-! ## The reading by characters -/

theorem closing?_eq_some_iff_closesAt {d : Text} {start stop : Nat} (hs : Text.IsBoundary d start) :
    closing? d start = some stop ↔ ClosesAt d start stop := by
  obtain ⟨before, rest, rfl, rfl⟩ := hs
  rw [closing?_eq_some_iff]
  constructor
  · intro h
    obtain ⟨body, after, rfl, hbody, rfl⟩ := h
    exact ⟨before, body, after, by simp, hbody, rfl, Text.byteLen_append _ _⟩
  · intro h
    obtain ⟨before', body, after, hd, hbody, hlen, rfl⟩ := h
    rw [List.append_assoc] at hd
    obtain ⟨rfl, rfl⟩ := Text.append_inj_byteLen hd hlen.symm
    exact ⟨body, after, rfl, hbody, Text.byteLen_append _ _⟩

end Polyglot.Literal
