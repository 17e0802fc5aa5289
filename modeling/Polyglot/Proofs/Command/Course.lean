/-
  Polyglot.Proofs.Command.Course — the courses that a run can take on a tree.

  `Course` has one case for each point where a run can end. `course_run`: a run takes
  one of them. Checking the document never ends a run (`verify_merge`), so there is no
  case for it.
-/

import Polyglot.Command.Response
import Polyglot.Proofs.Document.RoundTrip
import Polyglot.Proofs.FileTree.Storing

namespace Polyglot.Command

/-- A document reads back as the programs it was made of. -/
theorem verify_merge (first second : Source) : verify (merge first second) = .ok () := by
  have h : Document.read (merge first second).document = .ok (merge first second).roles.programs :=
    Document.read_encode _
  simp [verify, h]

/-! ## What a run reports -/

/-- The merge of the inputs of a request, when these are their texts. -/
def Request.merged (r : Request) (first second : Text) : Merged :=
  merge (.ofPath r.first first) (.ofPath r.second second)

/-- What is to be told of a run that has read its inputs and merged them. -/
def Request.account (r : Request) (first second : Text) : Account where
  outcome := .ofMerged (r.merged first second)
  events := Event.ofMerged (.ofPath r.first first) (.ofPath r.second second) (r.merged first second) ++
    if r.flags.verify then [.verified] else []
  texts := some (first, second)

namespace Account

/-- What is to be told of a run that has not read its inputs. -/
def unread (f : Failure) : Account := ⟨Outcome.fail ⟨none, false, []⟩ f, [], none⟩

def fail (a : Account) (f : Failure) : Account := { a with outcome := a.outcome.fail f }

def written (a : Account) : Account := { a with outcome := { a.outcome with written := true } }

end Account

/-- What is to be told of a run by how storing its document went. -/
def Request.concluded (r : Request) (first second : Text) : Except FileError Unit → Account
  | .ok () => (r.account first second).written
  | .error e => (r.account first second).fail (.unwritable r.output e)

/-! ## The courses -/

/-- How reading the file at `p` in `t` as a text fails. -/
inductive Unread (t : FileTree) (p : Path) (file : FileId) : Failure → Prop
  | unreadable {e : FileError} : t.read p = .error e → Unread t p file (.unreadable p e)
  | notText {data : Bytes} {e : Utf8.DecodeError} : t.read p = .ok data → Utf8.decode data = .error e →
      Unread t p file (.notText file e)

/-- Where a run from `t` can end, with what is told of it and the tree that it leaves. -/
inductive Course (r : Request) (t : FileTree) : Account → FileTree → Prop
  | missing : [r.first, r.second].filter (!t.pathExists ·) ≠ [] →
      Course r t (.unread (.missing ([r.first, r.second].filter (!t.pathExists ·)))) t
  | firstUnread {f : Failure} : t.pathExists r.first = true → t.pathExists r.second = true →
      Unread t r.first firstFile f → Course r t (.unread f) t
  | secondUnread {first : Text} {f : Failure} : t.pathExists r.second = true →
      t.read r.first = .ok (Utf8.encode first) → Unread t r.second secondFile f → Course r t (.unread f) t
  | unwritable {first second : Text} {e : FileError} {t' : FileTree} :
      t.read r.first = .ok (Utf8.encode first) → t.read r.second = .ok (Utf8.encode second) →
      (FileTree.host.store r.output (Utf8.encode (r.merged first second).document)).run t = (.error e, t') →
      Course r t ((r.account first second).fail (.unwritable r.output e)) t'
  | written {first second : Text} {t' : FileTree} :
      t.read r.first = .ok (Utf8.encode first) → t.read r.second = .ok (Utf8.encode second) →
      (FileTree.host.store r.output (Utf8.encode (r.merged first second).document)).run t = (.ok (), t') →
      Course r t (r.account first second).written t'

/-! ## One of them is taken -/

theorem readInput_cases (t : FileTree) (p : Path) (file : FileId) :
    (∃ f, Unread t p file f ∧ (readInput FileTree.host p file).run t = (.error f, t)) ∨
      ∃ text, t.read p = .ok (Utf8.encode text) ∧ (readInput FileTree.host p file).run t = (.ok text, t) := by
  have hread : (FileTree.host.read p).run t = (t.read p, t) := rfl
  rw [readInput, FileTree.run_bind, hread]
  cases hr : t.read p with
  | error e => exact Or.inl ⟨_, .unreadable hr, rfl⟩
  | ok data =>
    show (∃ f, _ ∧ ((Utf8.decode data).mapError (Failure.notText file), t) = _) ∨
      ∃ text, _ ∧ ((Utf8.decode data).mapError (Failure.notText file), t) = _
    cases hd : Utf8.decode data with
    | error e => exact Or.inl ⟨_, .notText hr hd, rfl⟩
    | ok text => exact Or.inr ⟨text, by rw [Utf8.encode_of_decode hd], rfl⟩

/-- Gathering the inputs changes nothing; it ends in the first of the failures before a merge, or has
    both texts. -/
theorem gather_cases (r : Request) (t : FileTree) :
    (∃ f, (gather FileTree.host r).run t = (.error f, t) ∧ Course r t (.unread f) t) ∨
      ∃ first second, (gather FileTree.host r).run t = (.ok (first, second), t) ∧
        t.read r.first = .ok (Utf8.encode first) ∧ t.read r.second = .ok (Utf8.encode second) := by
  have hpath (p : Path) : (FileTree.host.pathExists p).run t = (t.pathExists p, t) := rfl
  have hmissing : (if t.pathExists r.first = true then [] else [r.first]) ++
      (if t.pathExists r.second = true then [] else [r.second]) = [r.first, r.second].filter (!t.pathExists ·) := by
    cases h₁ : t.pathExists r.first <;> cases h₂ : t.pathExists r.second <;> simp [h₁, h₂]
  rw [gather, FileTree.run_bind, hpath]
  dsimp only
  rw [FileTree.run_bind, hpath]
  dsimp only
  rw [hmissing]
  by_cases hm : [r.first, r.second].filter (!t.pathExists ·) = []
  · have h₁ : t.pathExists r.first = true := by simpa using List.filter_eq_nil_iff.1 hm r.first (by simp)
    have h₂ : t.pathExists r.second = true := by simpa using List.filter_eq_nil_iff.1 hm r.second (by simp)
    rw [hm, if_neg (by simp), FileTree.run_bind]
    rcases readInput_cases t r.first firstFile with ⟨f, hf, hrun⟩ | ⟨first, hfirst, hrun⟩
    · rw [hrun]
      exact Or.inl ⟨f, rfl, .firstUnread h₁ h₂ hf⟩
    rw [hrun]
    dsimp only
    rw [FileTree.run_bind]
    rcases readInput_cases t r.second secondFile with ⟨f, hf, hrun⟩ | ⟨second, hsecond, hrun⟩
    · rw [hrun]
      exact Or.inl ⟨f, rfl, .secondUnread h₂ hfirst hf⟩
    · rw [hrun]
      exact Or.inr ⟨first, second, rfl, hfirst, hsecond⟩
  · rw [if_pos (by simpa using hm)]
    exact Or.inl ⟨_, rfl, .missing hm⟩

/-- Whether the document is checked or not, delivering it is storing it. -/
theorem deliver_run (r : Request) (first second : Source) (t : FileTree) :
    (deliver FileTree.host r (merge first second)).run t =
      (((FileTree.host.store r.output (Utf8.encode (merge first second).document)).run t).1.mapError
        (.unwritable r.output),
        ((FileTree.host.store r.output (Utf8.encode (merge first second).document)).run t).2) := by
  have hcheck : (if r.flags.verify = true then verify (merge first second) else .ok ()) = .ok () := by
    rw [verify_merge, ite_self]
  rw [deliver, hcheck]
  dsimp only
  rw [FileTree.run_bind]
  cases (FileTree.host.store r.output (Utf8.encode (merge first second).document)).run t with
  | mk answer t' => cases answer <;> rfl

/-- Once the inputs are gathered, all that is left to happen is storing the document. -/
theorem run_run (r : Request) (t : FileTree) :
    (run FileTree.host r).run t =
      match ((gather FileTree.host r).run t).1 with
      | .error f => (.unread f, t)
      | .ok (first, second) =>
        let stored := (FileTree.host.store r.output (Utf8.encode (r.merged first second).document)).run t
        (r.concluded first second stored.1, stored.2) := by
  rw [run, FileTree.run_bind]
  rcases gather_cases r t with ⟨f, hrun, -⟩ | ⟨first, second, hrun, -, -⟩
  · rw [hrun]
    rfl
  have hchecked : (verify (merge (.ofPath r.first first) (.ofPath r.second second))).isOk = true := by
    rw [verify_merge]
    rfl
  rw [hrun]
  dsimp only
  rw [FileTree.run_bind, deliver_run]
  simp only [hchecked, and_true, Request.merged]
  cases (FileTree.host.store r.output
    (Utf8.encode (merge (.ofPath r.first first) (.ofPath r.second second)).document)).run t with
  | mk answer t' => cases answer <;> rfl

theorem course_run (r : Request) (t : FileTree) :
    Course r t ((run FileTree.host r).run t).1 ((run FileTree.host r).run t).2 := by
  rw [run_run]
  rcases gather_cases r t with ⟨f, hrun, hc⟩ | ⟨first, second, hrun, hfirst, hsecond⟩
  · rw [hrun]
    exact hc
  rw [hrun]
  dsimp only
  cases hs : (FileTree.host.store r.output (Utf8.encode (r.merged first second).document)).run t with
  | mk answer t' =>
    cases answer with
    | error e => exact .unwritable hfirst hsecond hs
    | ok _ => exact .written hfirst hsecond hs

end Polyglot.Command
