/-
  Polyglot.Proofs.Document.Faults — why a text is not read.

  A fault is in the shape of the text (`Layout`) or, once both literals are found, in what
  their bodies say (`Programs.Fault`). Each case of a fault says that nothing before it is
  at fault, so a text has one fault, and reading reports it (`read_eq_error_iff`).
-/

import Polyglot.Proofs.Document.Grammar
import Polyglot.Proofs.Literal.Refusal

namespace Polyglot

open Literal (Body BadLetter LoneBackslash HostWord hostLetters pythonLetters lists_host lists_python hostWord_iff
  unescape_eq_invalidEscape_iff unescape_eq_trailingBackslash_iff)

/-! ## The bodies -/

/-- What is wrong with the bodies of two literals: first with the JavaScript program, then with the
    statement, then with what the statement holds. Offsets count from the start of each body. -/
inductive Programs.Fault (a b : Text) : ReadError → Prop
  | javascript {offset : Nat} {l : Char} : BadLetter hostLetters a offset l →
      Fault a b (.badEscape (.invalidEscape offset l))
  | statement {javascript : Text} {offset : Nat} {l : Char} : HostWord a javascript →
      BadLetter hostLetters b offset l → Fault a b (.badEscape (.invalidEscape offset l))
  | wrapper {javascript statement : Text} : HostWord a javascript → HostWord b statement →
      (∀ c, statement ≠ "exec('''".toList ++ c ++ "''')".toList) → Fault a b .missingWrapper
  | pythonLetter {javascript c : Text} {offset : Nat} {l : Char} : HostWord a javascript →
      HostWord b ("exec('''".toList ++ c ++ "''')".toList) → BadLetter pythonLetters c offset l →
      Fault a b (.badEscape (.invalidEscape offset l))
  | pythonBackslash {javascript c : Text} : HostWord a javascript →
      HostWord b ("exec('''".toList ++ c ++ "''')".toList) → LoneBackslash pythonLetters c →
      Fault a b (.badEscape .trailingBackslash)

theorem Literal.Body.unescape_ne_trailingBackslash {w : Text} (hw : Body w) :
    Escaping.host.unescape w ≠ .error .trailingBackslash := by
  intro h
  exact hw.not_loneBackslash ((unescape_eq_trailingBackslash_iff lists_host).1 h)

/-- Between quotes the host refuses nothing but a letter. -/
theorem Literal.Body.unescape_eq_error_iff {w : Text} (hw : Body w) {cause : EscapeError} :
    Escaping.host.unescape w = .error cause ↔
      ∃ offset l, BadLetter hostLetters w offset l ∧ cause = .invalidEscape offset l := by
  constructor
  · intro h
    cases cause with
    | invalidEscape offset l => exact ⟨offset, l, (unescape_eq_invalidEscape_iff lists_host).1 h, rfl⟩
    | trailingBackslash => exact absurd h hw.unescape_ne_trailingBackslash
  · intro h
    obtain ⟨offset, l, hl, rfl⟩ := h
    exact (unescape_eq_invalidEscape_iff lists_host).2 hl

namespace Programs

variable {a b : Text} {fault : ReadError}

theorem ofBodies_of_javascript_error {cause : EscapeError} (ha : Escaping.host.unescape a = .error cause) :
    ofBodies a b = .error (.badEscape cause) := by
  rw [ofBodies, ha]
  rfl

theorem ofBodies_of_statement_error {javascript : Text} {cause : EscapeError}
    (ha : Escaping.host.unescape a = .ok javascript) (hb : Escaping.host.unescape b = .error cause) :
    ofBodies a b = .error (.badEscape cause) := by
  rw [ofBodies, ha, hb]
  rfl

theorem ofBodies_of_no_wrapper {javascript statement : Text} (ha : Escaping.host.unescape a = .ok javascript)
    (hb : Escaping.host.unescape b = .ok statement) (hc : Document.execBody? statement = none) :
    ofBodies a b = .error .missingWrapper := by
  rw [ofBodies, ha, hb]
  simp only [bind, Except.bind, Except.mapError, hc]
  rfl

theorem ofBodies_of_wrapper {javascript statement c : Text} (ha : Escaping.host.unescape a = .ok javascript)
    (hb : Escaping.host.unescape b = .ok statement) (hc : Document.execBody? statement = some c) :
    ofBodies a b = ((Escaping.python.unescape c).mapError .badEscape).map fun python => { python, javascript } := by
  rw [ofBodies, ha, hb]
  simp only [bind, Except.bind, Except.mapError, hc]
  cases Escaping.python.unescape c <;> rfl

theorem ofBodies_of_fault (h : Fault a b fault) : ofBodies a b = .error fault := by
  cases h with
  | javascript hl => exact ofBodies_of_javascript_error ((unescape_eq_invalidEscape_iff lists_host).2 hl)
  | statement ha hl =>
    exact ofBodies_of_statement_error (hostWord_iff.1 ha).2 ((unescape_eq_invalidEscape_iff lists_host).2 hl)
  | wrapper ha hb hne =>
    apply ofBodies_of_no_wrapper (hostWord_iff.1 ha).2 (hostWord_iff.1 hb).2
    rw [Option.eq_none_iff_forall_ne_some]
    intro c hc
    exact hne c (Document.execBody?_eq_some_iff.1 hc)
  | pythonLetter ha hb hl =>
    rw [ofBodies_of_wrapper (hostWord_iff.1 ha).2 (hostWord_iff.1 hb).2 (Document.execBody?_eq_some_iff.2 rfl),
      (unescape_eq_invalidEscape_iff lists_python).2 hl]
    rfl
  | pythonBackslash ha hb hl =>
    rw [ofBodies_of_wrapper (hostWord_iff.1 ha).2 (hostWord_iff.1 hb).2 (Document.execBody?_eq_some_iff.2 rfl),
      (unescape_eq_trailingBackslash_iff lists_python).2 hl]
    rfl

theorem fault_of_ofBodies (ha : Body a) (hb : Body b) (h : ofBodies a b = .error fault) : Fault a b fault := by
  cases hj : Escaping.host.unescape a with
  | error cause =>
    obtain ⟨offset, l, hl, rfl⟩ := ha.unescape_eq_error_iff.1 hj
    cases h.symm.trans (ofBodies_of_javascript_error hj)
    exact .javascript hl
  | ok javascript =>
  have hwa := hostWord_iff.2 ⟨ha, hj⟩
  cases hs : Escaping.host.unescape b with
  | error cause =>
    obtain ⟨offset, l, hl, rfl⟩ := hb.unescape_eq_error_iff.1 hs
    cases h.symm.trans (ofBodies_of_statement_error hj hs)
    exact .statement hwa hl
  | ok statement =>
  have hwb := hostWord_iff.2 ⟨hb, hs⟩
  cases hc : Document.execBody? statement with
  | none =>
    cases h.symm.trans (ofBodies_of_no_wrapper hj hs hc)
    refine .wrapper hwa hwb fun c heq => ?_
    rw [Document.execBody?_eq_some_iff.2 heq] at hc
    cases hc
  | some c =>
  rw [ofBodies_of_wrapper hj hs hc] at h
  rw [Document.execBody?_eq_some_iff.1 hc] at hwb
  cases hp : Escaping.python.unescape c with
  | ok python =>
    rw [hp] at h
    cases h
  | error cause =>
    rw [hp] at h
    cases h
    cases cause with
    | invalidEscape offset l => exact .pythonLetter hwa hwb ((unescape_eq_invalidEscape_iff lists_python).1 hp)
    | trailingBackslash => exact .pythonBackslash hwa hwb ((unescape_eq_trailingBackslash_iff lists_python).1 hp)

end Programs

/-! ## The text -/

namespace Document

/-- What is wrong with a text: its shape, or else the bodies of its two literals. -/
inductive Fault (d : Text) : ReadError → Prop
  | shape {fault : ReadError} : Layout d (.error fault) → Fault d fault
  | bodies {a b : Text} {fault : ReadError} : Layout d (.ok (a, b)) → Programs.Fault a b fault → Fault d fault

theorem Layout.body {d a b : Text} (h : Layout d (.ok (a, b))) : Body a ∧ Body b := by
  cases h with
  | complete ha hb _ => exact ⟨ha, hb⟩

theorem read_of_fault {d : Text} {fault : ReadError} (h : Fault d fault) : read d = .error fault := by
  cases h with
  | shape h =>
    rw [read, bodies_eq_iff.2 h]
    rfl
  | bodies h hf =>
    rw [read, bodies_eq_iff.2 h]
    exact Programs.ofBodies_of_fault hf

theorem fault_of_read {d : Text} {fault : ReadError} (h : read d = .error fault) : Fault d fault := by
  rw [read] at h
  rcases bind_eq_error_iff.1 h with h | ⟨⟨a, b⟩, hbodies, h⟩
  · exact .shape (bodies_eq_iff.1 h)
  · have hlayout := bodies_eq_iff.1 hbodies
    exact .bodies hlayout (Programs.fault_of_ofBodies hlayout.body.1 hlayout.body.2 h)

/-- A text is refused exactly for the fault that it has. The bodies of the two literals never end
    in a lone backslash; only what the statement holds can. -/
theorem read_eq_error_iff (d : Text) :
    (∀ fault, read d = .error fault ↔ Fault d fault) ∧
      ∀ a b, bodies d = .ok (a, b) →
        Escaping.host.unescape a ≠ .error .trailingBackslash ∧ Escaping.host.unescape b ≠ .error .trailingBackslash := by
  constructor
  · intro fault
    exact ⟨fault_of_read, read_of_fault⟩
  · intro a b h
    obtain ⟨ha, hb⟩ := (bodies_eq_iff.1 h).body
    exact ⟨ha.unescape_ne_trailingBackslash, hb.unescape_ne_trailingBackslash⟩

/-- The statement holds a lone backslash, which is written as two. -/
def backslashDocument : Text := "eval([\"\", \"exec('''\\\\''')\"][(-1 % 2 + 1) >> 1])".toList

theorem read_eq_error_iff_backslash :
    Fault backslashDocument (.badEscape .trailingBackslash) ∧
      bodies backslashDocument = .ok ([], "exec('''\\\\''')".toList) ∧
      Escaping.host.unescape "exec('''\\\\''')".toList ≠ .error .trailingBackslash := by
  have hread : read backslashDocument = .error (.badEscape .trailingBackslash) := by decide +kernel
  have hbodies : bodies backslashDocument = .ok ([], "exec('''\\\\''')".toList) := by decide +kernel
  exact ⟨((read_eq_error_iff backslashDocument).1 _).1 hread, hbodies,
    ((read_eq_error_iff backslashDocument).2 _ _ hbodies).2⟩

end Document

end Polyglot
