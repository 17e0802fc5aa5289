/-
  Polyglot.Proofs.Command.Again — running the command a second time.

  After a run that has written its file, the same run once more reads the same inputs
  and stores the same document, unless the file is one of the inputs. Then it says the
  same and leaves every entry of the tree as it is. If the file is an input, the
  document that it then holds is merged itself, and the new document is longer.
  `invoke_again` has both.
-/

import Polyglot.Proofs.Command.Outcome
import Polyglot.Proofs.FileTree.Again

namespace Polyglot

/-! ## Documents are longer than their programs -/

theorem Escaping.length_le_escape (e : Escaping) (t : Text) : t.length ≤ (e.escape t).length := by
  have hunit (c : Char) : 1 ≤ (e.unit c).length := by
    unfold unit
    split
    · simp
    · simp
  induction t with
  | nil => exact Nat.zero_le _
  | cons c t ih =>
    have := hunit c
    rw [escape_cons, List.length_append, List.length_cons]
    omega

theorem Document.length_lt_encode (p : Programs) :
    p.python.length < (encode p).length ∧ p.javascript.length < (encode p).length := by
  have hpython := Escaping.python.length_le_escape p.python
  have hexec := Escaping.host.length_le_escape (execStatement p.python)
  have hjavascript := Escaping.host.length_le_escape p.javascript
  have hopening : opening.length = 7 := by decide
  unfold encode
  unfold execStatement at hexec ⊢
  simp only [List.length_append, hopening] at hexec ⊢
  omega

theorem length_lt_document (a b : Source) :
    a.text.length < (merge a b).document.length ∧ b.text.length < (merge a b).document.length := by
  show a.text.length < (Document.encode (merge a b).roles.programs).length ∧
    b.text.length < (Document.encode (merge a b).roles.programs).length
  rw [roles_merge]
  cases (merge a b).classification.order with
  | asGiven => exact Document.length_lt_encode (Order.asGiven.assign a b).programs
  | swapped => exact (Document.length_lt_encode (Order.swapped.assign a b).programs).symm

namespace Command

variable {args : List Bytes} {r : Request} {t t' : FileTree} {a : Account} {first second : Text}

/-! ## Runs that read their inputs -/

theorem Unread.read_ne {p : Path} {file : FileId} {f : Failure} (h : Unread t p file f) (text : Text) :
    t.read p ≠ .ok (Utf8.encode text) := by
  intro hread
  have := h.text?_eq_none
  rw [FileTree.text?_eq_some_iff.2 hread] at this
  cases this

theorem Course.texts_of_read (h : Course r t a t') (hfirst : t.read r.first = .ok (Utf8.encode first))
    (hsecond : t.read r.second = .ok (Utf8.encode second)) : a.texts = some (first, second) := by
  have htexts {first' second' : Text} (h₁ : t.read r.first = .ok (Utf8.encode first'))
      (h₂ : t.read r.second = .ok (Utf8.encode second')) : some (first', second') = some (first, second) := by
    rw [hfirst, Except.ok.injEq] at h₁
    rw [hsecond, Except.ok.injEq] at h₂
    rw [Utf8.encode_injective h₁, Utf8.encode_injective h₂]
  cases h with
  | missing hm =>
    exact absurd (Request.missing_eq_nil (FileTree.pathExists_of_read hfirst) (FileTree.pathExists_of_read hsecond)) hm
  | firstUnread _ _ hf => exact absurd hfirst (hf.read_ne first)
  | secondUnread _ _ hf => exact absurd hsecond (hf.read_ne second)
  | unwritable h₁ h₂ _ => exact htexts h₁ h₂
  | written h₁ h₂ _ => exact htexts h₁ h₂

theorem gather_of_read (hfirst : t.read r.first = .ok (Utf8.encode first))
    (hsecond : t.read r.second = .ok (Utf8.encode second)) :
    (gather FileTree.host r).run t = (.ok (first, second), t) := by
  rcases gather_cases r t with ⟨f, -, hc⟩ | ⟨first', second', hrun, h₁, h₂⟩
  · have := hc.texts_of_read hfirst hsecond
    cases this
  · rw [hfirst, Except.ok.injEq] at h₁
    rw [hsecond, Except.ok.injEq] at h₂
    rw [hrun, Utf8.encode_injective h₁, Utf8.encode_injective h₂]

theorem run_of_read (hfirst : t.read r.first = .ok (Utf8.encode first))
    (hsecond : t.read r.second = .ok (Utf8.encode second))
    (hstore : (FileTree.host.store r.output (Utf8.encode (r.merged first second).document)).run t = (.ok (), t')) :
    (run FileTree.host r).run t = ((r.account first second).written, t') := by
  rw [run_run, gather_of_read hfirst hsecond]
  dsimp only
  rw [hstore]
  rfl

/-! ## Runs that change nothing -/

/-- A run that has written its file and changed nothing has not written into an input. -/
theorem not_sameFile_of_run (hcode : (Response.ofAccount r ((run FileTree.host r).run t).1).code = 0)
    (htree : ((run FileTree.host r).run t).2 = t) :
    ¬t.SameFile r.output r.first ∧ ¬t.SameFile r.output r.second := by
  obtain ⟨first, second, hfirst, hsecond, hstore⟩ := (course_run r t).of_code_eq_zero hcode
  rw [htree] at hstore
  obtain ⟨l, hstored⟩ := FileTree.stored_of_store hstore
  have hlen := length_lt_document (.ofPath r.first first) (.ofPath r.second second)
  constructor
  · intro hsame
    rw [hstored.read_of_sameFile hsame, Except.ok.injEq] at hfirst
    have hdocument : (r.merged first second).document = first := Utf8.encode_injective hfirst
    exact absurd (congrArg List.length hdocument) (Nat.ne_of_gt hlen.1)
  · intro hsame
    rw [hstored.read_of_sameFile hsame, Except.ok.injEq] at hsecond
    have hdocument : (r.merged first second).document = second := Utf8.encode_injective hsecond
    exact absurd (congrArg List.length hdocument) (Nat.ne_of_gt hlen.2)

theorem run_again (hcode : (Response.ofAccount r ((run FileTree.host r).run t).1).code = 0)
    (hfirst : ¬((run FileTree.host r).run t).2.SameFile r.output r.first)
    (hsecond : ¬((run FileTree.host r).run t).2.SameFile r.output r.second) :
    (run FileTree.host r).run ((run FileTree.host r).run t).2 = (run FileTree.host r).run t := by
  obtain ⟨first, second, hread₁, hread₂, hstore⟩ := (course_run r t).of_code_eq_zero hcode
  obtain ⟨l, hstored⟩ := FileTree.stored_of_store hstore
  rw [run_of_read (hstored.read hread₁ hfirst) (hstored.read hread₂ hsecond) (FileTree.store_again hstore)]
  exact (run_of_read hread₁ hread₂ hstore).symm

/-! ## The command -/

/-- The same answer, notes included, and the same tree: exactly if the output is no input. -/
theorem invoke_again (hr : Invocation.ofArguments args = .run r)
    (hcode : ((invoke FileTree.host args).run t).1.code = 0) :
    (invoke FileTree.host args).run ((invoke FileTree.host args).run t).2 = (invoke FileTree.host args).run t ↔
      ¬((invoke FileTree.host args).run t).2.SameFile r.output r.first ∧
        ¬((invoke FileTree.host args).run t).2.SameFile r.output r.second := by
  rw [invoke_run hr] at hcode ⊢
  dsimp only at hcode ⊢
  rw [invoke_run hr]
  constructor
  · intro h
    obtain ⟨hresponse, htree⟩ := Prod.mk.inj h
    refine not_sameFile_of_run ?_ htree
    rw [hresponse, hcode]
  · intro hx
    rw [run_again hcode hx.1 hx.2]

/-- The output leads through two directories that are not there before. -/
def nestedRequest : Request where
  first := Utf8.encode "a.js".toList
  second := Utf8.encode "./b.py".toList
  output := Utf8.encode "x/../y/o".toList
  flags := Flags.none.add .trace

def nestedArguments : List Bytes :=
  [nestedRequest.first, nestedRequest.second, Utf8.encode "--trace".toList, nestedRequest.output]

/-- Into a file of its own, and into an input. -/
theorem invoke_again_nested :
    Invocation.ofArguments nestedArguments = .run nestedRequest ∧
      ((invoke FileTree.host nestedArguments).run quotesTree).1.code = 0 ∧
      (invoke FileTree.host nestedArguments).run ((invoke FileTree.host nestedArguments).run quotesTree).2 =
        (invoke FileTree.host nestedArguments).run quotesTree ∧
      Invocation.ofArguments aliasingArguments = .run aliasingRequest ∧
      ((invoke FileTree.host aliasingArguments).run quotesTree).1.code = 0 ∧
      (invoke FileTree.host aliasingArguments).run ((invoke FileTree.host aliasingArguments).run quotesTree).2 ≠
        (invoke FileTree.host aliasingArguments).run quotesTree := by
  have hr : Invocation.ofArguments nestedArguments = .run nestedRequest := by decide +kernel
  have hcode : ((invoke FileTree.host nestedArguments).run quotesTree).1.code = 0 := by decide +kernel
  have houtput : ((invoke FileTree.host nestedArguments).run quotesTree).2.resolve nestedRequest.output =
      .ok [Utf8.encode "y".toList, Utf8.encode "o".toList] := by decide +kernel
  have hfirst : ((invoke FileTree.host nestedArguments).run quotesTree).2.resolve nestedRequest.first =
      .ok [Utf8.encode "a.js".toList] := by decide +kernel
  have hsecond : ((invoke FileTree.host nestedArguments).run quotesTree).2.resolve nestedRequest.second =
      .ok [Utf8.encode "b.py".toList] := by decide +kernel
  have hr' : Invocation.ofArguments aliasingArguments = .run aliasingRequest := by decide +kernel
  have hcode' : ((invoke FileTree.host aliasingArguments).run quotesTree).1.code = 0 := by decide +kernel
  have hsame : ((invoke FileTree.host aliasingArguments).run quotesTree).2.SameFile aliasingRequest.output
      aliasingRequest.first := ⟨[Utf8.encode "a.js".toList], by decide +kernel, by decide +kernel⟩
  refine ⟨hr, hcode, (invoke_again hr hcode).2 ⟨?_, ?_⟩, hr', hcode', ?_⟩
  · intro hx
    obtain ⟨l, hl, hl'⟩ := hx
    rw [houtput] at hl
    rw [hfirst, ← hl] at hl'
    exact absurd hl' (by decide)
  · intro hx
    obtain ⟨l, hl, hl'⟩ := hx
    rw [houtput] at hl
    rw [hsecond, ← hl] at hl'
    exact absurd hl' (by decide)
  · intro hx
    exact ((invoke_again hr' hcode').1 hx).1 hsame

end Command

end Polyglot
