/-
  Polyglot.Text.Utf8.Basic — texts as bytes, and what any bytes say as a text.

  A byte string falls into pieces from left to right: characters, and ill-formed parts.
  An ill-formed part is as long as it could still have begun a character: the bytes
  before the first one that no character has there. If the bytes end before that, the
  part is `cut`. `decode` wants characters only and names the first other piece;
  `lossy` puts a replacement character for each.

  The laws are in `Polyglot.Text.Utf8.Lemmas`: nothing is lost, and `decode` accepts
  exactly what `encode` writes.
-/

import Polyglot.Text.Basic

namespace Polyglot.Utf8

/-! ## Writing -/

def encodeChar (c : Char) : Bytes :=
  let v := c.toNat
  if v < 0x80 then [v.toUInt8]
  else if v < 0x800 then [(0xC0 + v / 0x40).toUInt8, (0x80 + v % 0x40).toUInt8]
  else if v < 0x10000 then
    [(0xE0 + v / 0x1000).toUInt8, (0x80 + v / 0x40 % 0x40).toUInt8, (0x80 + v % 0x40).toUInt8]
  else
    [(0xF0 + v / 0x40000).toUInt8, (0x80 + v / 0x1000 % 0x40).toUInt8, (0x80 + v / 0x40 % 0x40).toUInt8,
      (0x80 + v % 0x40).toUInt8]

def encode (t : Text) : Bytes := t.flatMap encodeChar

/-! ## Pieces -/

inductive Piece where
  | char (c : Char)
  /-- Bytes that begin a character, before one that does not continue it. -/
  | broken (bytes : Bytes)
  /-- Bytes that begin a character, before the end. -/
  | cut (bytes : Bytes)
  deriving DecidableEq

def Piece.bytes : Piece → Bytes
  | .char c => encodeChar c
  | .broken bs | .cut bs => bs

/-- What the second byte may be after a first byte that announces more than one, least and
    greatest; the bounds leave out overlong forms, surrogates and values past the last. -/
def secondRange (b : UInt8) : Option (UInt8 × UInt8) :=
  if b < 0xC2 then none
  else if b < 0xE0 then some (0x80, 0xBF)
  else if b = 0xE0 then some (0xA0, 0xBF)
  else if b = 0xED then some (0x80, 0x9F)
  else if b < 0xF0 then some (0x80, 0xBF)
  else if b = 0xF0 then some (0x90, 0xBF)
  else if b < 0xF4 then some (0x80, 0xBF)
  else if b = 0xF4 then some (0x80, 0x8F)
  else none

def isContinuation (b : UInt8) : Bool := 0x80 ≤ b && b ≤ 0xBF

/-- The low six bits, which a byte after the first adds to the value. -/
def payload (b : UInt8) : Nat := b.toNat % 0x40

/-- The first piece of `b :: rest`, and the bytes after it. -/
def front (b : UInt8) (rest : Bytes) : Piece × Bytes :=
  if b < 0x80 then (.char (Char.ofNat b.toNat), rest)
  else match secondRange b with
    | none => (.broken [b], rest)
    | some (least, greatest) =>
      match rest with
      | [] => (.cut [b], [])
      | b₂ :: rest₂ =>
        if b₂ < least ∨ greatest < b₂ then (.broken [b], b₂ :: rest₂)
        else if b < 0xE0 then (.char (Char.ofNat (b.toNat % 0x20 * 0x40 + payload b₂)), rest₂)
        else match rest₂ with
          | [] => (.cut [b, b₂], [])
          | b₃ :: rest₃ =>
            if !isContinuation b₃ then (.broken [b, b₂], b₃ :: rest₃)
            else if b < 0xF0 then
              (.char (Char.ofNat (b.toNat % 0x10 * 0x1000 + payload b₂ * 0x40 + payload b₃)), rest₃)
            else match rest₃ with
              | [] => (.cut [b, b₂, b₃], [])
              | b₄ :: rest₄ =>
                if !isContinuation b₄ then (.broken [b, b₂, b₃], b₄ :: rest₄)
                else
                  (.char (Char.ofNat
                    (b.toNat % 0x08 * 0x40000 + payload b₂ * 0x1000 + payload b₃ * 0x40 + payload b₄)), rest₄)

theorem length_front_le (b : UInt8) (rest : Bytes) : (front b rest).2.length ≤ rest.length := by
  unfold front
  repeat' split
  all_goals simp <;> omega

/-- The walk of `pieces`; `done` holds the pieces passed so far, last first. -/
def piecesOnto (done : List Piece) : Bytes → List Piece
  | [] => done.reverse
  | b :: rest => piecesOnto ((front b rest).1 :: done) (front b rest).2
termination_by bs => bs.length
decreasing_by
  have := length_front_le b rest
  simp; omega

def pieces (bs : Bytes) : List Piece := piecesOnto [] bs

/-! ## Reading -/

/-- Why bytes are not the written form of any text. -/
inductive DecodeError where
  /-- An ill-formed part of `size` bytes at `index`. -/
  | invalid (size index : Nat)
  /-- The bytes end inside the character that starts at `index`. -/
  | incomplete (index : Nat)
  deriving DecidableEq

def DecodeError.message : DecodeError → Text
  | .invalid size index =>
    "invalid utf-8 sequence of ".toList ++ Text.decimal size ++ " bytes from index ".toList ++ Text.decimal index
  | .incomplete index => "incomplete utf-8 byte sequence from index ".toList ++ Text.decimal index

/-- The characters of pieces that are all characters; `done` holds, last first, those of the
    `index` bytes passed so far. -/
def charsOnto (done : Text) (index : Nat) : List Piece → Except DecodeError Text
  | [] => .ok done.reverse
  | .char c :: ps => charsOnto (c :: done) (index + c.utf8Size) ps
  | .broken bs :: _ => .error (.invalid bs.length index)
  | .cut _ :: _ => .error (.incomplete index)

def decode (bs : Bytes) : Except DecodeError Text := charsOnto [] 0 (pieces bs)

/-- A piece as one character to look at. -/
def Piece.shown : Piece → Char
  | .char c => c
  | .broken _ | .cut _ => '\uFFFD'

def lossy (bs : Bytes) : Text := (pieces bs).map Piece.shown

end Polyglot.Utf8
