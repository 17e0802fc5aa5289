/-
  Polyglot.Proofs.Command.Failure — what the command leaves behind when it fails.

  `invoke_failure`: every file is as it was, and there is no other. The directories are
  as they were, too, unless it was the writing that failed; then there may be more of
  them on the way to the output. A failed run has one error to report, and its code says
  which of these it was.
-/

import Polyglot.Proofs.Command.Effect
import Polyglot.Proofs.Merge.Diagnostics

namespace Polyglot

namespace FileTree

variable {t t' : FileTree} {p : Path}

/-- `t'` has the files of `t`, with what was in them, and no others. -/
def SameFiles (t t' : FileTree) : Prop := ∀ l b, t'.node? l = some (.file b) ↔ t.node? l = some (.file b)

/-- `t'` has the directories of `t` and no others. -/
def SameDirectories (t t' : FileTree) : Prop := ∀ l, t'.node? l = some .directory ↔ t.node? l = some .directory

/-- `t'` has the directories of `t`, and any other is named by a front part of the path of the
    directory that `p` leads into. -/
structure MoreDirectories (p : Path) (t t' : FileTree) : Prop where
  keeps : ∀ l, t.node? l = some .directory → t'.node? l = some .directory
  made : ∀ l, t'.node? l = some .directory → t.node? l = some .directory ∨
    ∃ parent q, p.parents.head? = some parent ∧ q ∈ p.parents ∧ q <+: parent ∧ t'.resolve q = .ok l

theorem Grown.sameFiles {ps : List Path} (h : Grown ps t t') : SameFiles t t' := by
  intro l b
  constructor
  · intro hl
    rcases h.made l _ hl with hl | ⟨hd, -⟩
    · exact hl
    · cases hd
  · exact h.keeps l _

theorem Grown.moreDirectories (h : Grown p.parents t t') : MoreDirectories p t t' where
  keeps l hl := h.keeps l _ hl
  made l hl := by
    rcases h.made l _ hl with hl | ⟨-, q, hq, hr⟩
    · exact Or.inl hl
    · obtain ⟨parent, hparent, hprefix⟩ := Path.isPrefix_parent hq
      exact Or.inr ⟨parent, q, hparent, hq, hprefix, hr⟩

end FileTree

namespace Command

variable {args : List Bytes} {r : Request} {t t' : FileTree} {a : Account}

/-! ## Errors -/

def Account.errors (a : Account) : List Diagnostic := a.outcome.diagnostics.filter (·.isError)

theorem Account.errors_fail (a : Account) (f : Failure) : (a.fail f).errors = a.errors ++ [f.toDiagnostic] :=
  List.filter_append ..

/-- A merge only warns. -/
theorem Request.errors_account (r : Request) (first second : Text) : (r.account first second).errors = [] := by
  refine List.filter_eq_nil_iff.2 fun d hd => ?_
  have hwarning : d.severity = .warning := severity_of_mem_diagnostics_merge hd
  simp [Diagnostic.isError, hwarning]

theorem Response.code_ofAccount (r : Request) (a : Account) :
    (Response.ofAccount r a).code = if a.errors = [] then 0 else 1 := by
  have hfailed : a.outcome.failed = true ↔ ¬a.errors = [] := by
    rw [Outcome.failed, Account.errors, List.any_eq_true, List.filter_eq_nil_iff]
    simp
  show (if a.outcome.failed = true then 1 else 0) = _
  simp only [hfailed, ite_not]

theorem Unread.code {file : FileId} {f : Failure} {p : Path} (h : Unread t p file f) :
    f.code = "JUSPY1002".toList := by
  cases h with
  | unreadable _ => rfl
  | notText _ _ => rfl

/-! ## Runs -/

/-- The error that ends a run from `t`, and the tree that the run leaves. -/
inductive EndsRun (r : Request) (t : FileTree) (d : Diagnostic) (t' : FileTree) : Prop
  | reading : d.code = "JUSPY1001".toList ∨ d.code = "JUSPY1002".toList → t' = t → EndsRun r t d t'
  | writing : d.code = "JUSPY1003".toList → FileTree.Grown r.output.parents t t' → EndsRun r t d t'

theorem Course.of_code_ne_zero (h : Course r t a t') (hcode : (Response.ofAccount r a).code ≠ 0) :
    ∃ d, a.errors = [d] ∧ EndsRun r t d t' := by
  cases h with
  | missing _ => exact ⟨_, rfl, .reading (Or.inl rfl) rfl⟩
  | firstUnread _ _ hunread => exact ⟨_, rfl, .reading (Or.inr hunread.code) rfl⟩
  | secondUnread _ _ hunread => exact ⟨_, rfl, .reading (Or.inr hunread.code) rfl⟩
  | @unwritable first second e _ _ _ hstore =>
    have herrors := (r.account first second).errors_fail (.unwritable r.output e)
    rw [Request.errors_account, List.nil_append] at herrors
    exact ⟨_, herrors, .writing rfl (FileTree.grown_of_store_error hstore)⟩
  | @written first second _ _ _ _ =>
    have herrors : (r.account first second).written.errors = [] := Request.errors_account r first second
    rw [Response.code_ofAccount, if_pos herrors] at hcode
    exact absurd rfl hcode

/-! ## The command -/

/-- How the command fails with some arguments on `t`: its answer, and what becomes of the
    directories. -/
inductive Failed (args : List Bytes) (t : FileTree) (answer : Response) (t' : FileTree) : Prop
  | usage {e : UsageError} : Invocation.ofArguments args = .misuse e → answer.code = 2 →
      t.SameDirectories t' → Failed args t answer t'
  | reading {r : Request} {d : Diagnostic} : Invocation.ofArguments args = .run r → answer.code = 1 →
      ((run FileTree.host r).run t).1.errors = [d] → d.code = "JUSPY1001".toList ∨ d.code = "JUSPY1002".toList →
      t.SameDirectories t' → Failed args t answer t'
  | writing {r : Request} {d : Diagnostic} : Invocation.ofArguments args = .run r → answer.code = 1 →
      ((run FileTree.host r).run t).1.errors = [d] → d.code = "JUSPY1003".toList →
      t.MoreDirectories r.output t' → Failed args t answer t'

theorem sameFiles_and_failed_of_endsRun {d : Diagnostic} (hr : Invocation.ofArguments args = .run r)
    (herrors : ((run FileTree.host r).run t).1.errors = [d]) (h : EndsRun r t d ((run FileTree.host r).run t).2) :
    t.SameFiles ((invoke FileTree.host args).run t).2 ∧
      Failed args t ((invoke FileTree.host args).run t).1 ((invoke FileTree.host args).run t).2 := by
  have hcode : (Response.ofAccount r ((run FileTree.host r).run t).1).code = 1 := by
    rw [Response.code_ofAccount, herrors, if_neg (by simp)]
  rw [invoke_run hr]
  cases h with
  | reading hd htree =>
    refine ⟨fun l b => ?_, .reading hr hcode herrors hd fun l => ?_⟩
    · rw [htree]
    · rw [htree]
  | writing hd hgrown => exact ⟨hgrown.sameFiles, .writing hr hcode herrors hd hgrown.moreDirectories⟩

theorem invoke_failure (hcode : ((invoke FileTree.host args).run t).1.code ≠ 0) :
    t.SameFiles ((invoke FileTree.host args).run t).2 ∧
      Failed args t ((invoke FileTree.host args).run t).1 ((invoke FileTree.host args).run t).2 := by
  cases hargs : Invocation.ofArguments args with
  | help =>
    rw [invoke, hargs] at hcode
    exact absurd rfl hcode
  | version =>
    rw [invoke, hargs] at hcode
    exact absurd rfl hcode
  | misuse e =>
    have hinvoke : (invoke FileTree.host args).run t = (.ofMisuse e, t) := by
      rw [invoke, hargs]
      rfl
    rw [hinvoke]
    exact ⟨fun _ _ => Iff.rfl, .usage hargs rfl fun _ => Iff.rfl⟩
  | run r =>
    rw [invoke_run hargs] at hcode
    obtain ⟨d, herrors, hend⟩ := (course_run r t).of_code_ne_zero hcode
    exact sameFiles_and_failed_of_endsRun hargs herrors hend

/-- The output leads through a directory that is not there and names one itself. -/
def directoryArguments : List Bytes :=
  [Utf8.encode "a.js".toList, Utf8.encode "b.py".toList, Utf8.encode "x/..".toList]

/-- The directory on the way is made and stays. -/
theorem invoke_failure_directory :
    ((invoke FileTree.host directoryArguments).run quotesTree).1.code ≠ 0 ∧
      quotesTree.SameFiles ((invoke FileTree.host directoryArguments).run quotesTree).2 ∧
      Failed directoryArguments quotesTree ((invoke FileTree.host directoryArguments).run quotesTree).1
        ((invoke FileTree.host directoryArguments).run quotesTree).2 ∧
      ((invoke FileTree.host directoryArguments).run quotesTree).2.node? [Utf8.encode "x".toList] =
        some .directory := by
  have hcode : ((invoke FileTree.host directoryArguments).run quotesTree).1.code ≠ 0 := by decide +kernel
  have hfailed := invoke_failure hcode
  exact ⟨hcode, hfailed.1, hfailed.2, by decide +kernel⟩

end Command

end Polyglot
