/-
  Polyglot.Proofs.Command.Outcome — the code of the command, what it reports and what it
  has done agree.

  A run fails at the first of its stages that cannot be passed (`Request.failingStage?`).
  It then has one error to report, after all warnings, and that error has the code of the
  stage and says what is wrong there (`Request.Complaint`); without a failing stage it has
  none, and the file is written (`Course.consistent`). What the inputs hold decides this
  only by being text or not, so no hazard and no lack of a language makes a run fail
  (`invoke_consistent`).
-/

import Polyglot.Proofs.Command.Failure
import Polyglot.Proofs.FileTree.Reading
import Polyglot.Proofs.FileTree.Shape

namespace Polyglot.Command

variable {args : List Bytes} {r : Request} {t t' : FileTree} {a : Account}

/-! ## Stages -/

/-- What a run does, in this order. -/
inductive Stage where
  /-- It looks whether the inputs are there. -/
  | lookup
  | readFirst
  | readSecond
  | write
  deriving DecidableEq

/-- The code of the error when a stage fails. -/
def Stage.code : Stage → Text
  | lookup => "JUSPY1001".toList
  | readFirst | readSecond => "JUSPY1002".toList
  | write => "JUSPY1003".toList

/-- What is wrong when the file at `p` in `t` cannot be had as a text, and the place of that. A file that
    cannot be read goes by its path; one that is no text is there to point at. -/
inductive ReadingComplaint (t : FileTree) (p : Path) (file : FileId) : Text → Place → Prop
  | unreadable {e : FileError} : t.read p = .error e →
      ReadingComplaint t p file ("failed to read ".toList ++ p.display ++ ": ".toList ++ e.message) .nowhere
  | notText {data : Bytes} {e : Utf8.DecodeError} : t.read p = .ok data → Utf8.decode data = .error e →
      ReadingComplaint t p file ("input is not valid UTF-8: ".toList ++ e.message) (.file file)

namespace Request

/-- The inputs that are not there, in the order of the arguments. -/
def missing (r : Request) (t : FileTree) : List Path := [r.first, r.second].filter (!t.pathExists ·)

/-- The notes to the error when a stage fails: one for each input that is not there. -/
def notes (r : Request) (t : FileTree) : Stage → List Text
  | .lookup => (r.missing t).map fun p => "not found: ".toList ++ p.display
  | .readFirst | .readSecond | .write => []

/-- Storing the document of two texts in the output file. -/
def storing (r : Request) (t : FileTree) (first second : Text) : Except FileError Unit :=
  ((FileTree.host.store r.output (Utf8.encode (r.merged first second).document)).run t).1

/-- The first stage that a run from `t` cannot pass. -/
def failingStage? (r : Request) (t : FileTree) : Option Stage :=
  if r.missing t ≠ [] then some .lookup
  else match t.text? r.first, t.text? r.second with
    | none, _ => some .readFirst
    | some _, none => some .readSecond
    | some first, some second => if (r.storing t first second).isOk then none else some .write

/-- What is wrong when a stage of a run from `t` fails, and the place of that. -/
inductive Complaint (r : Request) (t : FileTree) : Stage → Text → Place → Prop
  | lookup : r.missing t ≠ [] → Complaint r t .lookup "one or more input files do not exist".toList .nowhere
  | readFirst {message : Text} {place : Place} : ReadingComplaint t r.first firstFile message place →
      Complaint r t .readFirst message place
  | readSecond {message : Text} {place : Place} : ReadingComplaint t r.second secondFile message place →
      Complaint r t .readSecond message place
  | write {first second : Text} {e : FileError} : t.text? r.first = some first → t.text? r.second = some second →
      r.storing t first second = .error e →
      Complaint r t .write ("failed to write ".toList ++ r.output.display ++ ": ".toList ++ e.message) .nowhere

/-- The error when a stage fails. -/
def error (r : Request) (t : FileTree) (s : Stage) (message : Text) (place : Place) : Diagnostic where
  code := s.code
  severity := .error
  message
  place
  notes := r.notes t s

/-- Both inputs are there and hold texts. -/
structure Readable (r : Request) (t : FileTree) : Prop where
  there : r.missing t = []
  first : (t.text? r.first).isSome = true
  second : (t.text? r.second).isSome = true

end Request

namespace Outcome

def python? (o : Outcome) : Option Text := o.assignment.map (·.python)

def javascript? (o : Outcome) : Option Text := o.assignment.map (·.javascript)

def order? (o : Outcome) : Option Order := o.assignment.map (·.order)

end Outcome

/-! ## The failing stage -/

theorem Unread.text?_eq_none {p : Path} {file : FileId} {f : Failure} (h : Unread t p file f) : t.text? p = none := by
  cases h with
  | unreadable hread => exact FileTree.text?_eq_none_of_error hread
  | notText hread hdecode => exact FileTree.text?_eq_none_of_decode hread hdecode

namespace Request

variable {first second : Text}

theorem missing_eq_nil (h₁ : t.pathExists r.first = true) (h₂ : t.pathExists r.second = true) :
    r.missing t = [] := by
  simp [missing, h₁, h₂]

theorem readable_of_text? (h₁ : t.text? r.first = some first) (h₂ : t.text? r.second = some second) : r.Readable t where
  there := missing_eq_nil (FileTree.pathExists_of_text? h₁) (FileTree.pathExists_of_text? h₂)
  first := Option.isSome_of_eq_some h₁
  second := Option.isSome_of_eq_some h₂

theorem not_readable_of_first (h : t.text? r.first = none) : ¬r.Readable t := by
  intro hr
  have := hr.first
  rw [h] at this
  cases this

theorem not_readable_of_second (h : t.text? r.second = none) : ¬r.Readable t := by
  intro hr
  have := hr.second
  rw [h] at this
  cases this

theorem failingStage?_of_missing (h : r.missing t ≠ []) : r.failingStage? t = some .lookup := if_pos h

theorem failingStage?_of_first (h : r.missing t = []) (h₁ : t.text? r.first = none) :
    r.failingStage? t = some .readFirst := by
  simp only [failingStage?, h, h₁, ne_eq, not_true_eq_false, if_false]

theorem failingStage?_of_second (h : r.missing t = []) (h₁ : t.text? r.first = some first)
    (h₂ : t.text? r.second = none) : r.failingStage? t = some .readSecond := by
  simp only [failingStage?, h, h₁, h₂, ne_eq, not_true_eq_false, if_false]

theorem failingStage?_of_texts (h₁ : t.text? r.first = some first) (h₂ : t.text? r.second = some second) :
    r.failingStage? t = if (r.storing t first second).isOk then none else some .write := by
  simp only [failingStage?, (readable_of_text? h₁ h₂).there, h₁, h₂, ne_eq, not_true_eq_false, if_false]

end Request

theorem Unread.complaint {p : Path} {file : FileId} {f : Failure} (h : Unread t p file f) :
    ∃ message place, ReadingComplaint t p file message place ∧
      f.toDiagnostic = { code := "JUSPY1002".toList, severity := .error, message, place, notes := [] } := by
  cases h with
  | unreadable hread => exact ⟨_, _, .unreadable hread, rfl⟩
  | notText hread hdecode => exact ⟨_, _, .notText hread hdecode, rfl⟩

/-! ## Runs -/

theorem Request.errors_account_fail (r : Request) (first second : Text) (f : Failure) :
    ((r.account first second).fail f).errors = [f.toDiagnostic] := by
  rw [Account.errors_fail, Request.errors_account, List.nil_append]

theorem Request.errors_account_written (r : Request) (first second : Text) :
    (r.account first second).written.errors = [] := r.errors_account first second

namespace Course

theorem written_iff (h : Course r t a t') : a.outcome.written = true ↔ a.errors = [] := by
  cases h with
  | missing _ => exact iff_of_false Bool.false_ne_true (List.cons_ne_nil _ _)
  | firstUnread _ _ _ => exact iff_of_false Bool.false_ne_true (List.cons_ne_nil _ _)
  | secondUnread _ _ _ => exact iff_of_false Bool.false_ne_true (List.cons_ne_nil _ _)
  | unwritable _ _ _ =>
    rw [Request.errors_account_fail]
    exact iff_of_false Bool.false_ne_true (List.cons_ne_nil _ _)
  | written _ _ _ => exact iff_of_true rfl (Request.errors_account_written _ _ _)

theorem errors_last (h : Course r t a t') :
    ∃ warnings, a.outcome.diagnostics = warnings ++ a.errors ∧ ∀ d ∈ warnings, d.severity = .warning := by
  cases h with
  | missing _ => exact ⟨[], rfl, by simp⟩
  | firstUnread _ _ _ => exact ⟨[], rfl, by simp⟩
  | secondUnread _ _ _ => exact ⟨[], rfl, by simp⟩
  | @unwritable first second _ _ _ _ _ =>
    refine ⟨(r.merged first second).diagnostics, ?_, fun d hd => severity_of_mem_diagnostics_merge hd⟩
    rw [Request.errors_account_fail]
    rfl
  | @written first second _ _ _ _ =>
    refine ⟨(r.merged first second).diagnostics, ?_, fun d hd => severity_of_mem_diagnostics_merge hd⟩
    rw [Request.errors_account_written, List.append_nil]
    rfl

/-- There is no error without a failing stage, and with one there is just the error of that stage. -/
theorem errors_cases (h : Course r t a t') :
    (r.failingStage? t = none ∧ a.errors = []) ∨
      ∃ s message place, r.failingStage? t = some s ∧ r.Complaint t s message place ∧
        a.errors = [r.error t s message place] := by
  cases h with
  | missing hm => exact Or.inr ⟨_, _, _, Request.failingStage?_of_missing hm, .lookup hm, rfl⟩
  | firstUnread h₁ h₂ hf =>
    have hs := Request.failingStage?_of_first (Request.missing_eq_nil h₁ h₂) hf.text?_eq_none
    obtain ⟨message, place, hc, hd⟩ := hf.complaint
    exact Or.inr ⟨_, _, _, hs, .readFirst hc, congrArg (fun d => [d]) hd⟩
  | secondUnread h₂ hfirst hf =>
    have hm := Request.missing_eq_nil (FileTree.pathExists_of_read hfirst) h₂
    have hs := Request.failingStage?_of_second hm (FileTree.text?_eq_some_iff.2 hfirst) hf.text?_eq_none
    obtain ⟨message, place, hc, hd⟩ := hf.complaint
    exact Or.inr ⟨_, _, _, hs, .readSecond hc, congrArg (fun d => [d]) hd⟩
  | @unwritable first second e _ hfirst hsecond hstore =>
    have h₁ := FileTree.text?_eq_some_iff.2 hfirst
    have h₂ := FileTree.text?_eq_some_iff.2 hsecond
    have hstoring : r.storing t first second = .error e := congrArg Prod.fst hstore
    have hs : r.failingStage? t = some .write := by
      rw [Request.failingStage?_of_texts h₁ h₂, hstoring]
      rfl
    exact Or.inr ⟨_, _, _, hs, .write h₁ h₂ hstoring, Request.errors_account_fail _ _ _ _⟩
  | @written first second _ hfirst hsecond hstore =>
    have h₁ := FileTree.text?_eq_some_iff.2 hfirst
    have h₂ := FileTree.text?_eq_some_iff.2 hsecond
    have hstoring : r.storing t first second = .ok () := congrArg Prod.fst hstore
    have hs : r.failingStage? t = none := by
      rw [Request.failingStage?_of_texts h₁ h₂, hstoring]
      rfl
    exact Or.inl ⟨hs, Request.errors_account_written _ _ _⟩

theorem errors_eq (h : Course r t a t') :
    a.errors.map (fun d => (d.code, d.notes)) = (r.failingStage? t).toList.map fun s => (s.code, r.notes t s) := by
  rcases h.errors_cases with ⟨hs, ha⟩ | ⟨s, message, place, hs, -, ha⟩
  · rw [hs, ha]
    rfl
  · rw [hs, ha]
    rfl

theorem complaint {s : Stage} (h : Course r t a t') (hs : r.failingStage? t = some s) :
    ∃ message place, r.Complaint t s message place ∧ a.errors = [r.error t s message place] := by
  rcases h.errors_cases with ⟨hnone, -⟩ | ⟨s', message, place, hs', hc, ha⟩
  · rw [hs] at hnone
    cases hnone
  · rw [hs] at hs'
    cases hs'
    exact ⟨message, place, hc, ha⟩

theorem isSome_assignment_iff (h : Course r t a t') : a.outcome.assignment.isSome = true ↔ r.Readable t := by
  cases h with
  | missing hm => exact iff_of_false Bool.false_ne_true fun h => hm h.there
  | firstUnread _ _ hf => exact iff_of_false Bool.false_ne_true (Request.not_readable_of_first hf.text?_eq_none)
  | secondUnread _ _ hf => exact iff_of_false Bool.false_ne_true (Request.not_readable_of_second hf.text?_eq_none)
  | unwritable hfirst hsecond _ =>
    exact iff_of_true rfl
      (Request.readable_of_text? (FileTree.text?_eq_some_iff.2 hfirst) (FileTree.text?_eq_some_iff.2 hsecond))
  | written hfirst hsecond _ =>
    exact iff_of_true rfl
      (Request.readable_of_text? (FileTree.text?_eq_some_iff.2 hfirst) (FileTree.text?_eq_some_iff.2 hsecond))

end Course

/-- How the code of the command and the account of its run belong together. -/
structure Consistent (r : Request) (t : FileTree) (code : Nat) (a : Account) : Prop where
  code_eq_zero_iff : code = 0 ↔ a.outcome.written = true
  written_iff : a.outcome.written = true ↔ a.errors = []
  errors_last : ∃ warnings, a.outcome.diagnostics = warnings ++ a.errors ∧ ∀ d ∈ warnings, d.severity = .warning
  /-- One error if a stage fails, and none if not. -/
  errors_eq : a.errors.map (fun d => (d.code, d.notes)) =
    (r.failingStage? t).toList.map fun s => (s.code, r.notes t s)
  /-- It says what is wrong, and with which of the files. -/
  complaint : ∀ s, r.failingStage? t = some s →
    ∃ message place, r.Complaint t s message place ∧ a.errors = [r.error t s message place]
  python : a.outcome.python?.isSome = true ↔ r.Readable t
  javascript : a.outcome.javascript?.isSome = true ↔ r.Readable t
  order : a.outcome.order?.isSome = true ↔ r.Readable t

theorem Response.code_eq_zero_iff : (Response.ofAccount r a).code = 0 ↔ a.errors = [] := by
  rw [Response.code_ofAccount]
  split
  · exact iff_of_true rfl ‹_›
  · exact iff_of_false Nat.one_ne_zero ‹_›

theorem Course.consistent (h : Course r t a t') : Consistent r t (Response.ofAccount r a).code a where
  code_eq_zero_iff := Response.code_eq_zero_iff.trans h.written_iff.symm
  written_iff := h.written_iff
  errors_last := h.errors_last
  errors_eq := h.errors_eq
  complaint _ hs := h.complaint hs
  python := by rw [Outcome.python?, Option.isSome_map, h.isSome_assignment_iff]
  javascript := by rw [Outcome.javascript?, Option.isSome_map, h.isSome_assignment_iff]
  order := by rw [Outcome.order?, Option.isSome_map, h.isSome_assignment_iff]

theorem Course.code_eq (h : Course r t a t') :
    (Response.ofAccount r a).code = if r.failingStage? t = none then 0 else 1 := by
  have hnil : a.errors = [] ↔ r.failingStage? t = none := by
    rw [← List.map_eq_nil_iff, h.errors_eq, List.map_eq_nil_iff, Option.toList_eq_nil_iff]
  rw [Response.code_ofAccount]
  simp only [hnil]

/-! ## Inputs with other texts -/

/-- `t'` is `t` but for what the inputs hold, which is a text wherever it is not the same. -/
structure OtherTexts (r : Request) (t t' : FileTree) : Prop where
  workdir : t'.workdir = t.workdir
  node? : ∀ l, t'.node? l = t.node? l ∨ (t.resolve r.first = .ok l ∨ t.resolve r.second = .ok l) ∧
    ∃ text text', t.node? l = some (.file (Utf8.encode text)) ∧ t'.node? l = some (.file (Utf8.encode text'))

namespace OtherTexts

theorem sameShape (h : OtherTexts r t t') : t.SameShape t' := by
  refine ⟨h.workdir, fun l => ?_, fun l => ?_⟩
  · rcases h.node? l with hl | ⟨-, text, text', hl, hl'⟩
    · rw [hl]
    · simp [hl, hl']
  · rcases h.node? l with hl | ⟨-, text, text', hl, hl'⟩
    · rw [hl]
    · simp [hl, hl']

theorem isSome_text? (h : OtherTexts r t t') (p : Path) : (t'.text? p).isSome = (t.text? p).isSome := by
  rw [Bool.eq_iff_iff, FileTree.isSome_text?_iff, FileTree.isSome_text?_iff, h.sameShape.resolve]
  refine exists_congr fun l => ?_
  rcases h.node? l with hl | ⟨-, text, text', hl, hl'⟩
  · rw [hl]
  · -- a text on both sides
    rw [hl, hl']
    constructor
    · intro hx
      obtain ⟨-, hr, -⟩ := hx
      exact ⟨text, hr, rfl⟩
    · intro hx
      obtain ⟨-, hr, -⟩ := hx
      exact ⟨text', hr, rfl⟩

theorem text?_eq_none (h : OtherTexts r t t') {p : Path} (hp : t.text? p = none) : t'.text? p = none := by
  rw [← Option.isNone_iff_eq_none, ← Option.not_isSome, h.isSome_text?, hp]
  rfl

theorem exists_text? (h : OtherTexts r t t') {p : Path} {text : Text} (hp : t.text? p = some text) :
    ∃ text', t'.text? p = some text' := by
  rw [← Option.isSome_iff_exists, h.isSome_text?, hp]
  rfl

theorem missing (h : OtherTexts r t t') : r.missing t' = r.missing t := by
  simp only [Request.missing, h.sameShape.pathExists]

theorem storing (h : OtherTexts r t t') (first second first' second' : Text) :
    r.storing t' first' second' = r.storing t first second :=
  (FileTree.agree_store _ _ _ t t' h.sameShape).1

/-- A run fails at the same stage, or at none. -/
theorem failingStage? (h : OtherTexts r t t') : r.failingStage? t' = r.failingStage? t := by
  unfold Request.failingStage?
  rw [h.missing]
  split
  · rfl
  cases h₁ : t.text? r.first with
  | none => rw [h.text?_eq_none h₁]
  | some first =>
    obtain ⟨first', h₁'⟩ := h.exists_text? h₁
    rw [h₁']
    cases h₂ : t.text? r.second with
    | none => rw [h.text?_eq_none h₂]
    | some second =>
      obtain ⟨second', h₂'⟩ := h.exists_text? h₂
      rw [h₂']
      simp only [h.storing first second first' second']

end OtherTexts

/-! ## The command -/

theorem invoke_consistent (hr : Invocation.ofArguments args = .run r) (t : FileTree) :
    Consistent r t ((invoke FileTree.host args).run t).1.code ((run FileTree.host r).run t).1 ∧
      ∀ t', OtherTexts r t t' →
        ((invoke FileTree.host args).run t').1.code = ((invoke FileTree.host args).run t).1.code := by
  constructor
  · rw [invoke_run hr]
    exact (course_run r t).consistent
  · intro t' h
    rw [invoke_run hr, invoke_run hr]
    dsimp only
    rw [(course_run r t').code_eq, (course_run r t).code_eq, h.failingStage?]

/-- The files of `quotesTree`, one full of hazards and one empty. -/
def hazardsTree : FileTree where
  workdir := []
  entries := [([Utf8.encode "a.js".toList], .file (Utf8.encode "\r\r\x00".toList)),
    ([Utf8.encode "b.py".toList], .file (Utf8.encode []))]

theorem otherTexts_hazardsTree : OtherTexts aliasingRequest quotesTree hazardsTree := by
  refine ⟨rfl, fun l => ?_⟩
  by_cases h₁ : l = [Utf8.encode "a.js".toList]
  · subst h₁
    exact Or.inr ⟨Or.inl (by decide +kernel), _, _, rfl, rfl⟩
  by_cases h₂ : l = [Utf8.encode "b.py".toList]
  · subst h₂
    exact Or.inr ⟨Or.inr (by decide +kernel), _, _, rfl, rfl⟩
  · left
    simp only [FileTree.node?, quotesTree, hazardsTree, List.lookup_cons, beq_eq_false_iff_ne.2 h₁,
      beq_eq_false_iff_ne.2 h₂]

theorem invoke_consistent_hazards :
    Invocation.ofArguments aliasingArguments = .run aliasingRequest ∧
      Consistent aliasingRequest quotesTree ((invoke FileTree.host aliasingArguments).run quotesTree).1.code
        ((run FileTree.host aliasingRequest).run quotesTree).1 ∧
      OtherTexts aliasingRequest quotesTree hazardsTree ∧
      ((invoke FileTree.host aliasingArguments).run hazardsTree).1.code =
        ((invoke FileTree.host aliasingArguments).run quotesTree).1.code := by
  have hr : Invocation.ofArguments aliasingArguments = .run aliasingRequest := by decide +kernel
  have hconsistent := invoke_consistent hr quotesTree
  exact ⟨hr, hconsistent.1, otherTexts_hazardsTree, hconsistent.2 hazardsTree otherTexts_hazardsTree⟩

end Polyglot.Command
