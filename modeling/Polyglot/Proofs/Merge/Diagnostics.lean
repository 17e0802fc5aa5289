/-
  Polyglot.Proofs.Merge.Diagnostics — what a merge reports, input by input.

  Sorting by file puts the diagnostics in the order of the files (`byFile_sortByFile`)
  and leaves those about one file as they stood (`ofRank_sortByFile`), and there is one
  list that both hold of (`eq_of_ofRank`). So a merge reports what there is to say about
  the languages, then the hazards of the first source, then those of the second,
  whichever of them is the Python program (`diagnostics_merge`,
  `merge_reports_in_order`).
-/

import Polyglot.Merge
import Polyglot.Proofs.Hazard.Runs

namespace Polyglot

variable {d : Diagnostic} {ds ds' : List Diagnostic}

namespace Diagnostic

/-! ## Sorting by file -/

/-- The diagnostics stand in the order of the files. -/
def ByFile (ds : List Diagnostic) : Prop := ds.Pairwise fun a b => a.fileRank ≤ b.fileRank

/-- The diagnostics of one rank, in their order. -/
def ofRank (k : Nat) (ds : List Diagnostic) : List Diagnostic := ds.filter (·.fileRank = k)

theorem ofRank_append (k : Nat) (ds ds' : List Diagnostic) : ofRank k (ds ++ ds') = ofRank k ds ++ ofRank k ds' :=
  List.filter_append ..

theorem ofRank_cons_self (d : Diagnostic) (ds : List Diagnostic) :
    ofRank d.fileRank (d :: ds) = d :: ofRank d.fileRank ds := by
  simp [ofRank]

theorem byFile_of_fileRank {k : Nat} (h : ∀ d ∈ ds, d.fileRank = k) : ByFile ds := by
  refine List.pairwise_of_forall_mem_list fun a ha b hb => Nat.le_of_eq ?_
  rw [h a ha, h b hb]

theorem fileRank_trans (a b c : Diagnostic) (hab : decide (a.fileRank ≤ b.fileRank) = true)
    (hbc : decide (b.fileRank ≤ c.fileRank) = true) : decide (a.fileRank ≤ c.fileRank) = true := by
  simp only [decide_eq_true_eq] at hab hbc ⊢
  omega

theorem fileRank_total (a b : Diagnostic) :
    (decide (a.fileRank ≤ b.fileRank) || decide (b.fileRank ≤ a.fileRank)) = true := by
  simp only [Bool.or_eq_true, decide_eq_true_eq]
  omega

theorem byFile_sortByFile (ds : List Diagnostic) : ByFile (sortByFile ds) :=
  (List.pairwise_mergeSort fileRank_trans fileRank_total ds).imp of_decide_eq_true

theorem sortByFile_cons (d : Diagnostic) (ds : List Diagnostic) :
    ∃ before after, sortByFile (d :: ds) = before ++ d :: after ∧ sortByFile ds = before ++ after ∧
      ∀ e ∈ before, e.fileRank < d.fileRank := by
  obtain ⟨before, after, hcons, htail, hlt⟩ := List.mergeSort_cons fileRank_trans fileRank_total d ds
  refine ⟨before, after, hcons, htail, fun e he => ?_⟩
  simpa using hlt e he

theorem ofRank_sortByFile (k : Nat) (ds : List Diagnostic) : ofRank k (sortByFile ds) = ofRank k ds := by
  induction ds with
  | nil => simp [sortByFile]
  | cons d ds ih =>
    obtain ⟨before, after, hcons, htail, hlt⟩ := sortByFile_cons d ds
    rw [htail] at ih
    rw [hcons]
    simp only [ofRank, List.filter_append, List.filter_cons] at ih ⊢
    split
    · rename_i hd
      -- all before `d` is of lower rank
      have hnone : before.filter (·.fileRank = k) = [] := by
        refine List.filter_eq_nil_iff.2 fun e he => ?_
        have := hlt e he
        simp only [decide_eq_true_eq] at hd ⊢
        omega
      rw [hnone, List.nil_append] at ih ⊢
      rw [ih]
    · exact ih

theorem fileRank_le_of_ofRank (h : ByFile (d :: ds)) {e : Diagnostic}
    (hk : ofRank e.fileRank (d :: ds) ≠ []) : d.fileRank ≤ e.fileRank := by
  obtain ⟨x, hx⟩ := List.exists_mem_of_ne_nil _ hk
  obtain ⟨hx, hrank⟩ := List.mem_filter.1 hx
  simp only [decide_eq_true_eq] at hrank
  rcases List.mem_cons.1 hx with rfl | hx
  · omega
  · have := List.rel_of_pairwise_cons h hx
    omega

theorem eq_of_ofRank (h : ByFile ds) (h' : ByFile ds') (hk : ∀ k, ofRank k ds = ofRank k ds') : ds = ds' := by
  induction ds generalizing ds' with
  | nil =>
    cases ds' with
    | nil => rfl
    | cons d' ds' =>
      have := hk d'.fileRank
      rw [ofRank_cons_self] at this
      cases this
  | cons d ds ih =>
    cases ds' with
    | nil =>
      have := hk d.fileRank
      rw [ofRank_cons_self] at this
      cases this
    | cons d' ds' =>
      have hle : d.fileRank ≤ d'.fileRank := fileRank_le_of_ofRank h (by rw [hk, ofRank_cons_self]; simp)
      have hle' : d'.fileRank ≤ d.fileRank := fileRank_le_of_ofRank h' (by rw [← hk, ofRank_cons_self]; simp)
      have hrank : d'.fileRank = d.fileRank := by omega
      have hhead := hk d.fileRank
      rw [ofRank_cons_self, ← hrank, ofRank_cons_self] at hhead
      obtain ⟨rfl, -⟩ := List.cons.inj hhead
      refine congrArg (d :: ·) (ih h.of_cons h'.of_cons fun k => ?_)
      have hk := hk k
      simp only [ofRank, List.filter_cons] at hk ⊢
      split at hk
      · exact (List.cons.inj hk).2
      · exact hk

end Diagnostic

/-! ## The diagnostics of a merge -/

open Diagnostic (ofRank)

theorem fileRank_of_mem_hazards {s : Source} {file : FileId} {d : Diagnostic} (h : d ∈ s.hazards file) :
    d.fileRank = file + 1 := by
  obtain ⟨hazard, -, rfl⟩ := List.mem_map.1 h
  rfl

theorem ofRank_hazards (s : Source) (file : FileId) (k : Nat) :
    ofRank k (s.hazards file) = if k = file + 1 then s.hazards file else [] := by
  split
  · refine List.filter_eq_self.2 fun d hd => ?_
    simpa [fileRank_of_mem_hazards hd] using ‹k = file + 1›.symm
  · refine List.filter_eq_nil_iff.2 fun d hd => ?_
    simpa [fileRank_of_mem_hazards hd] using Ne.symm ‹_›

/-- What there is to say about the languages, then about the sources in their order. -/
def reported (warning : Option RoleWarning) (first second : Source) : List Diagnostic :=
  warning.toList.map RoleWarning.toDiagnostic ++ first.hazards firstFile ++ second.hazards secondFile

theorem byFile_reported (warning : Option RoleWarning) (first second : Source) :
    Diagnostic.ByFile (reported warning first second) := by
  have hwarning : ∀ d ∈ warning.toList.map RoleWarning.toDiagnostic, d.fileRank = 0 := by
    intro d hd
    obtain ⟨w, -, rfl⟩ := List.mem_map.1 hd
    rfl
  have hfirst : ∀ d ∈ first.hazards firstFile, d.fileRank = 1 := fun d hd => fileRank_of_mem_hazards hd
  have hsecond : ∀ d ∈ second.hazards secondFile, d.fileRank = 2 := fun d hd => fileRank_of_mem_hazards hd
  refine List.pairwise_append.2 ⟨List.pairwise_append.2 ⟨Diagnostic.byFile_of_fileRank hwarning,
    Diagnostic.byFile_of_fileRank hfirst, ?_⟩, Diagnostic.byFile_of_fileRank hsecond, ?_⟩
  · intro a ha b hb
    rw [hwarning a ha]
    exact Nat.zero_le _
  · intro a ha b hb
    rw [hsecond b hb]
    rcases List.mem_append.1 ha with ha | ha
    · rw [hwarning a ha]
      omega
    · rw [hfirst a ha]
      omega

theorem roles_merge (first second : Source) :
    (merge first second).roles = (merge first second).classification.order.assign first second := rfl

theorem diagnostics_merge (first second : Source) :
    (merge first second).diagnostics = reported (merge first second).classification.warning first second := by
  have hsorted : (merge first second).diagnostics = Diagnostic.sortByFile (
      (merge first second).classification.warning.toList.map RoleWarning.toDiagnostic ++
      (merge first second).roles.python.hazards (merge first second).classification.order.files.1 ++
      (merge first second).roles.javascript.hazards (merge first second).classification.order.files.2) := rfl
  rw [hsorted]
  apply Diagnostic.eq_of_ofRank (Diagnostic.byFile_sortByFile _) (byFile_reported _ _ _)
  intro k
  rw [Diagnostic.ofRank_sortByFile, roles_merge]
  cases (merge first second).classification.order with
  | asGiven => rfl
  | swapped =>
    -- of the two blocks, only one has diagnostics of rank `k`
    simp only [Order.assign, Order.files, reported, Diagnostic.ofRank_append, ofRank_hazards, firstFile, secondFile,
      List.append_assoc]
    congr 1
    by_cases h₁ : k = 0 + 1
    · simp [h₁]
    · simp [h₁]

/-- A merge only warns. -/
theorem severity_of_mem_diagnostics_merge {first second : Source} {d : Diagnostic}
    (h : d ∈ (merge first second).diagnostics) : d.severity = .warning := by
  rw [diagnostics_merge, reported, List.mem_append, List.mem_append] at h
  rcases h with (h | h) | h
  · obtain ⟨w, -, rfl⟩ := List.mem_map.1 h
    rfl
  · obtain ⟨hazard, -, rfl⟩ := List.mem_map.1 h
    rfl
  · obtain ⟨hazard, -, rfl⟩ := List.mem_map.1 h
    rfl

/-- The diagnostic is about a range of a file. -/
def Diagnostic.PointsInto (d : Diagnostic) (file : FileId) : Prop :=
  d.place.file? = some file ∧ ∃ s, d.place.span? = some s ∧ s.file = file

theorem pointsInto_of_mem_hazards {s : Source} {file : FileId} {d : Diagnostic} (h : d ∈ s.hazards file) :
    d.PointsInto file := by
  obtain ⟨hazard, -, rfl⟩ := List.mem_map.1 h
  exact ⟨rfl, _, rfl, rfl⟩

/-- A merge reports the warning about the languages if there is one, then the hazards of the first
    source and then those of the second, each as a place in its own file and in the order of the text. -/
theorem merge_reports_in_order (first second : Source) :
    (merge first second).diagnostics =
        (merge first second).classification.warning.toList.map RoleWarning.toDiagnostic ++
          (Hazard.scan first.text).map (·.toDiagnostic firstFile) ++
          (Hazard.scan second.text).map (·.toDiagnostic secondFile) ∧
      (Hazard.scan first.text).Pairwise Hazard.Before ∧ (Hazard.scan second.text).Pairwise Hazard.Before ∧
      (∀ d ∈ (Hazard.scan first.text).map (·.toDiagnostic firstFile), d.PointsInto firstFile) ∧
      (∀ d ∈ (Hazard.scan second.text).map (·.toDiagnostic secondFile), d.PointsInto secondFile) ∧
      ∀ d ∈ (merge first second).diagnostics, d.severity = .warning := by
  refine ⟨diagnostics_merge first second, Hazard.pairwise_scan _, Hazard.pairwise_scan _, ?_, ?_, ?_⟩
  · intro d hd
    exact pointsInto_of_mem_hazards (s := first) hd
  · intro d hd
    exact pointsInto_of_mem_hazards (s := second) hd
  · intro d hd
    exact severity_of_mem_diagnostics_merge hd

/-! ## Hazards among them -/

/-- The diagnostic is about a hazard of some kind. -/
def Diagnostic.isHazard (d : Diagnostic) : Bool :=
  d.code == HazardKind.carriageReturn.code || d.code == HazardKind.nul.code

theorem Diagnostic.isHazard_iff : d.isHazard = true ↔ ∃ kind : HazardKind, d.code = kind.code := by
  simp only [isHazard, Bool.or_eq_true, beq_iff_eq]
  constructor
  · intro h
    rcases h with h | h
    · exact ⟨.carriageReturn, h⟩
    · exact ⟨.nul, h⟩
  · intro hx
    obtain ⟨kind, h⟩ := hx
    cases kind with
    | carriageReturn => exact Or.inl h
    | nul => exact Or.inr h

/-- What a merge reports about hazards. -/
def Merged.hazards (m : Merged) : List Diagnostic := m.diagnostics.filter (·.isHazard)

/-- What a merge reports about hazards of one of its inputs. -/
def Merged.hazardsOf (m : Merged) (file : FileId) : List Diagnostic := m.hazards.filter (·.place.file? = some file)

theorem code_of_mem_hazards {s : Source} {file : FileId} (h : d ∈ s.hazards file) :
    ∃ kind : HazardKind, d.code = kind.code := by
  obtain ⟨hazard, -, rfl⟩ := List.mem_map.1 h
  exact ⟨hazard.kind, rfl⟩

/-- No warning about the languages has the code of a hazard. -/
theorem RoleWarning.code_ne (w : RoleWarning) (kind : HazardKind) : w.code ≠ kind.code := by
  have hne {s t : String} (h : s ≠ t) : s.toList ≠ t.toList := mt String.toList_inj.1 h
  cases w with
  | noRecognizedExtension =>
    cases kind with
    | carriageReturn => exact hne (s := "JUSPY0001") (t := "JUSPY0003") (by decide)
    | nul => exact hne (s := "JUSPY0001") (t := "JUSPY0004") (by decide)
  | missingCounterpart found =>
    cases kind with
    | carriageReturn => exact hne (s := "JUSPY0002") (t := "JUSPY0003") (by decide)
    | nul => exact hne (s := "JUSPY0002") (t := "JUSPY0004") (by decide)

/-- What keeps no warning about the languages keeps of a merge what it keeps of the hazards. -/
theorem filter_diagnostics_merge {kept : Diagnostic → Bool} (h : ∀ w : RoleWarning, ¬kept w.toDiagnostic = true)
    (first second : Source) : (merge first second).diagnostics.filter kept =
      (first.hazards firstFile).filter kept ++ (second.hazards secondFile).filter kept := by
  have hwarning (w : Option RoleWarning) : (w.toList.map RoleWarning.toDiagnostic).filter kept = [] := by
    refine List.filter_eq_nil_iff.2 fun d hd => ?_
    obtain ⟨w, -, rfl⟩ := List.mem_map.1 hd
    exact h w
  rw [diagnostics_merge, reported, List.filter_append, List.filter_append, hwarning, List.nil_append]

theorem hazards_merge (first second : Source) :
    (merge first second).hazards = first.hazards firstFile ++ second.hazards secondFile := by
  have hwarning (w : RoleWarning) : ¬w.toDiagnostic.isHazard = true := by
    rw [Diagnostic.isHazard_iff]
    intro hx
    obtain ⟨kind, hkind⟩ := hx
    exact w.code_ne kind hkind
  have hblock (s : Source) (file : FileId) : (s.hazards file).filter (·.isHazard) = s.hazards file :=
    List.filter_eq_self.2 fun d hd => Diagnostic.isHazard_iff.2 (code_of_mem_hazards hd)
  rw [Merged.hazards, filter_diagnostics_merge hwarning, hblock, hblock]

theorem filter_file_hazards (s : Source) (file file' : FileId) :
    (s.hazards file).filter (·.place.file? = some file') = if file = file' then s.hazards file else [] := by
  have hfile {d : Diagnostic} (hd : d ∈ s.hazards file) : d.place.file? = some file := by
    obtain ⟨hazard, -, rfl⟩ := List.mem_map.1 hd
    rfl
  split
  · refine List.filter_eq_self.2 fun d hd => ?_
    simpa [hfile hd] using ‹file = file'›
  · refine List.filter_eq_nil_iff.2 fun d hd => ?_
    simpa [hfile hd] using ‹¬file = file'›

theorem hazardsOf_merge_first (first second : Source) :
    (merge first second).hazardsOf firstFile = first.hazards firstFile := by
  rw [Merged.hazardsOf, hazards_merge, List.filter_append, filter_file_hazards, filter_file_hazards, if_pos rfl,
    if_neg (by decide), List.append_nil]

theorem hazardsOf_merge_second (first second : Source) :
    (merge first second).hazardsOf secondFile = second.hazards secondFile := by
  rw [Merged.hazardsOf, hazards_merge, List.filter_append, filter_file_hazards, filter_file_hazards,
    if_neg (by decide), if_pos rfl, List.nil_append]

end Polyglot
