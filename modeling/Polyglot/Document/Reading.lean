/-
  Polyglot.Document.Reading — a document taken apart into its two programs.

  First the two literals are found (`bodies?`), then their bodies are read
  (`Programs.ofBodies`). A document may have blanks at its end. The first fault in
  that order is the one reported.

  Finding the literals cuts the document at positions that come from a search over
  bytes. `isSome_bodies?`: no cut falls inside a character or past the end, for any
  text; `read` rests on it.
-/

import Polyglot.Document.Basic
import Polyglot.Literal.Closing
import Polyglot.Text.Blank

namespace Polyglot

/-- Why a text is not a document. Offsets in `badEscape` count from the start of the body that is
    being read, the others from the start of the text. -/
inductive ReadError where
  | missingOpening
  /-- The literal whose quote stands at `offset` has no end. -/
  | unterminated (offset : Nat)
  | missingSeparator (offset : Nat)
  | missingClosing (offset : Nat)
  | missingWrapper
  | badEscape (cause : EscapeError)
  deriving DecidableEq

def ReadError.message : ReadError → Text
  | .missingOpening => "document does not start with `eval([\"`".toList
  | .unterminated offset =>
    "string literal starting at ".toList ++ Text.decimal offset ++ " is not terminated".toList
  | .missingSeparator offset => "expected `, ` between array elements at ".toList ++ Text.decimal offset
  | .missingClosing offset => "expected selector and closing `])` at ".toList ++ Text.decimal offset
  | .missingWrapper => "second element is not an `exec('''...''')` statement".toList
  | .badEscape cause => cause.message

namespace Document

/-- The bodies of the two literals; `none` if a cut would fall outside the text or inside a character. -/
def bodies? (d : Text) : Option (Except ReadError (Text × Text)) :=
  if opening.isPrefixOf d then
    let start₁ := Text.byteLen opening
    match Literal.closing? d start₁ with
    | none => some (.error (.unterminated (start₁ - 1)))
    | some stop₁ =>
      (Text.slice? d stop₁ (Text.byteLen d)).bind fun afterFirst =>
      if separator.isPrefixOf afterFirst then
        let start₂ := stop₁ + Text.byteLen separator
        match Literal.closing? d start₂ with
        | none => some (.error (.unterminated (start₂ - 1)))
        | some stop₂ =>
          (Text.slice? d stop₂ (Text.byteLen d)).bind fun afterSecond =>
          if Text.trimEnd afterSecond = closing then
            (Text.slice? d start₁ stop₁).bind fun first =>
            (Text.slice? d start₂ stop₂).map fun second => .ok (first, second)
          else some (.error (.missingClosing stop₂))
      else some (.error (.missingSeparator stop₁))
  else some (.error .missingOpening)

/-- The body of the literal in a Python statement. -/
def execBody? (statement : Text) : Option Text :=
  (execOpening.isPrefixOf? statement).bind execClosing.isSuffixOf?

end Document

/-- The programs that the bodies of the two literals stand for. -/
def Programs.ofBodies (first second : Text) : Except ReadError Programs := do
  let javascript ← (Escaping.host.unescape first).mapError .badEscape
  let statement ← (Escaping.host.unescape second).mapError .badEscape
  match Document.execBody? statement with
  | none => throw .missingWrapper
  | some body =>
    let python ← (Escaping.python.unescape body).mapError .badEscape
    return { python, javascript }

namespace Document

theorem isBoundary_of_isPrefixOf {p t : Text} (h : p.isPrefixOf t = true) : Text.IsBoundary t (Text.byteLen p) := by
  obtain ⟨r, rfl⟩ := List.isPrefixOf_iff_prefix.1 h
  exact ⟨p, r, rfl, rfl⟩

/-- A boundary of a text's rest is one of the text. -/
theorem isBoundary_add_of_slice? {t r : Text} {start m : Nat} (hs : Text.slice? t start (Text.byteLen t) = some r)
    (h : Text.IsBoundary r m) : Text.IsBoundary t (start + m) := by
  obtain ⟨u, v, rfl, rfl, -⟩ := Text.slice?_eq_some_iff.1 hs
  obtain ⟨x, y, rfl, rfl⟩ := h
  exact ⟨u ++ x, y ++ v, by simp, by simp⟩

theorem isSome_bodies? (d : Text) : (bodies? d).isSome = true := by
  unfold bodies?
  split
  · rename_i hopen
    have hb₁ := isBoundary_of_isPrefixOf hopen
    have hend := Text.isBoundary_byteLen d
    dsimp only
    split
    · rfl
    rename_i stop₁ hstop₁
    obtain ⟨hbs₁, hle₁⟩ := Literal.isBoundary_of_closing? hb₁ hstop₁
    obtain ⟨afterFirst, ha₁⟩ := Option.isSome_iff_exists.1 (Text.isSome_slice? hbs₁.le_byteLen hbs₁ hend)
    rw [ha₁, Option.bind_some]
    split
    · rename_i hsep
      have hb₂ := isBoundary_add_of_slice? ha₁ (isBoundary_of_isPrefixOf hsep)
      split
      · rfl
      rename_i stop₂ hstop₂
      obtain ⟨hbs₂, hle₂⟩ := Literal.isBoundary_of_closing? hb₂ hstop₂
      obtain ⟨afterSecond, ha₂⟩ := Option.isSome_iff_exists.1 (Text.isSome_slice? hbs₂.le_byteLen hbs₂ hend)
      rw [ha₂, Option.bind_some]
      split
      · obtain ⟨first, h₁⟩ := Option.isSome_iff_exists.1 (Text.isSome_slice? hle₁ hb₁ hbs₁)
        obtain ⟨second, h₂⟩ := Option.isSome_iff_exists.1 (Text.isSome_slice? hle₂ hb₂ hbs₂)
        rw [h₁, h₂]
        rfl
      · rfl
    · rfl
  · rfl

/-- The bodies of the two literals, or the first fault in the shape of the document. -/
def bodies (d : Text) : Except ReadError (Text × Text) := (bodies? d).get (isSome_bodies? d)

/-- The programs of a document. -/
def read (d : Text) : Except ReadError Programs := do
  let (first, second) ← bodies d
  Programs.ofBodies first second

end Document

end Polyglot
