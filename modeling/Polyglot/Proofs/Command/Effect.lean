/-
  Polyglot.Proofs.Command.Effect — what the command leaves behind.

  `invoke_success`: when the command has run and ends with code 0, one file of the tree
  was made or replaced, and both inputs can be had back from it, byte for byte.
-/

import Polyglot.Proofs.Command.Course

namespace Polyglot.Command

variable {args : List Bytes} {r : Request} {t t' : FileTree} {a : Account}

/-! ## Codes -/

theorem invoke_run (h : Invocation.ofArguments args = .run r) (t : FileTree) :
    (invoke FileTree.host args).run t =
      (.ofAccount r ((run FileTree.host r).run t).1, ((run FileTree.host r).run t).2) := by
  rw [invoke, h]
  rfl

theorem Outcome.failed_fail (o : Outcome) (f : Failure) : (o.fail f).failed = true := by
  simp [Outcome.failed, Outcome.fail, Failure.toDiagnostic, Diagnostic.isError]

theorem Response.code_ofAccount_of_failed (h : a.outcome.failed = true) : (Response.ofAccount r a).code = 1 :=
  if_pos h

/-- Of the courses of a run, only the one that writes can end with code 0. -/
theorem Course.of_code_eq_zero (h : Course r t a t') (hcode : (Response.ofAccount r a).code = 0) :
    ∃ first second, t.read r.first = .ok (Utf8.encode first) ∧ t.read r.second = .ok (Utf8.encode second) ∧
      (FileTree.host.store r.output (Utf8.encode (r.merged first second).document)).run t = (.ok (), t') := by
  have hfail (o : Outcome) (f : Failure) (ha : a.outcome = o.fail f) : False := by
    have hone := Response.code_ofAccount_of_failed (r := r) (ha ▸ Outcome.failed_fail o f)
    omega
  cases h with
  | missing _ => exact (hfail _ _ rfl).elim
  | firstUnread _ _ _ => exact (hfail _ _ rfl).elim
  | secondUnread _ _ _ => exact (hfail _ _ rfl).elim
  | unwritable _ _ _ => exact (hfail _ _ rfl).elim
  | written hfirst hsecond hstore => exact ⟨_, _, hfirst, hsecond, hstore⟩

/-! ## Success -/

/-- The bytes of the Python and of the JavaScript input of a request, when its inputs are these. -/
def Request.arranged (r : Request) (first second : Bytes) : Bytes × Bytes :=
  match (Classification.ofLanguages (.ofPath r.first) (.ofPath r.second)).order with
  | .asGiven => (first, second)
  | .swapped => (second, first)

/-- `t'` is `t` with a document in the output file of a request, whose two programs are the inputs of
    the request as `t` has them, each on its side. -/
def Delivered (r : Request) (t t' : FileTree) : Prop :=
  ∃ first second d programs l, t.read r.first = .ok first ∧ t.read r.second = .ok second ∧
    Document.read d = .ok programs ∧
    (Utf8.encode programs.python, Utf8.encode programs.javascript) = r.arranged first second ∧
    FileTree.Stored r.output (Utf8.encode d) l t t'

theorem encode_programs_merged (r : Request) (first second : Text) :
    (Utf8.encode (r.merged first second).roles.programs.python,
      Utf8.encode (r.merged first second).roles.programs.javascript) =
      r.arranged (Utf8.encode first) (Utf8.encode second) := by
  have hroles : (r.merged first second).roles =
      (Classification.ofLanguages (.ofPath r.first) (.ofPath r.second)).order.assign (.ofPath r.first first)
        (.ofPath r.second second) := rfl
  rw [hroles, Request.arranged]
  cases (Classification.ofLanguages (.ofPath r.first) (.ofPath r.second)).order with
  | asGiven => rfl
  | swapped => rfl

/-- The inputs are read before anything is written, so this is no less true of an output that is one
    of the inputs. -/
theorem invoke_success (hr : Invocation.ofArguments args = .run r)
    (hcode : ((invoke FileTree.host args).run t).1.code = 0) :
    Delivered r t ((invoke FileTree.host args).run t).2 := by
  rw [invoke_run hr] at hcode ⊢
  obtain ⟨first, second, hfirst, hsecond, hstore⟩ := (course_run r t).of_code_eq_zero hcode
  rcases FileTree.store_cases t r.output (Utf8.encode (r.merged first second).document) with
    ⟨e, t', hfails, -⟩ | ⟨l, t', hstored, hl⟩
  · rw [hstore] at hfails
    cases hfails
  · rw [hstore] at hstored
    cases hstored
    exact ⟨_, _, _, _, l, hfirst, hsecond, Document.read_encode _, encode_programs_merged r first second, hl⟩

/-- A JavaScript file and a Python file, both full of what has to be escaped. -/
def quotesTree : FileTree where
  workdir := []
  entries := [([Utf8.encode "a.js".toList], .file (Utf8.encode "\"'''\\\nλ".toList)),
    ([Utf8.encode "b.py".toList], .file (Utf8.encode "'''\\\"".toList))]

/-- The output is the first input, by a way through a directory that is not there. -/
def aliasingRequest : Request where
  first := Utf8.encode "a.js".toList
  second := Utf8.encode "b.py".toList
  output := Utf8.encode "x/../a.js".toList
  flags := .none

def aliasingArguments : List Bytes := [aliasingRequest.first, aliasingRequest.second, aliasingRequest.output]

theorem invoke_success_aliasing :
    Invocation.ofArguments aliasingArguments = .run aliasingRequest ∧
      ((invoke FileTree.host aliasingArguments).run quotesTree).1.code = 0 ∧
      Delivered aliasingRequest quotesTree ((invoke FileTree.host aliasingArguments).run quotesTree).2 := by
  have hr : Invocation.ofArguments aliasingArguments = .run aliasingRequest := by decide +kernel
  have hcode : ((invoke FileTree.host aliasingArguments).run quotesTree).1.code = 0 := by decide +kernel
  exact ⟨hr, hcode, invoke_success hr hcode⟩

end Polyglot.Command
