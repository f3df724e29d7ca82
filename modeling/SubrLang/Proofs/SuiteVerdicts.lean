import SubrLang.Command.Golden
import SubrLang.Proofs.WorkerPool

/-!
# The verdicts of a suite

A suite of test files is worked off by a pool. Each file has one verdict, which names it: the feeder has it if the
file is skipped, cannot be read or repeats another, and a worker finds it otherwise. Here what a file can be read
as does not change, so a verdict depends on its file alone.

In whatever order the feeder and the workers move, none of them ever waits for room, and in the end there is one
verdict for each file. Verdicts with different files can be sorted in one way only, so what is reported and whether
the suite fails do not depend on the order or on the number of workers (`Suite.interleavings_agree`).
-/

namespace SubrLang

namespace Verdict

variable {vs ws : List Verdict}

lemma sorted_perm (vs : List Verdict) : (sorted vs).Perm vs := List.mergeSort_perm vs _

lemma pairwise_sorted (vs : List Verdict) : (sorted vs).Pairwise fun a b => a.file ≤ b.file := by
  refine (List.pairwise_mergeSort (fun a b c hab hbc => ?_) (fun a b => ?_) vs).imp fun h => of_decide_eq_true h
  · exact decide_eq_true (String.le_trans (of_decide_eq_true hab) (of_decide_eq_true hbc))
  · simpa using String.le_total a.file b.file

/-- Verdicts on different files can be sorted in one way only. -/
lemma sorted_eq_of_perm (h : vs.Perm ws) (hfiles : (vs.map (·.file)).Nodup) : sorted vs = sorted ws := by
  refine List.Perm.eq_of_pairwise (fun a b ha hb hab hba => ?_) (pairwise_sorted vs) (pairwise_sorted ws)
    ((sorted_perm vs).trans (h.trans (sorted_perm ws).symm))
  have ha' : a ∈ vs := (sorted_perm vs).subset ha
  have hb' : b ∈ vs := h.symm.subset ((sorted_perm ws).subset hb)
  exact List.inj_on_of_nodup_map hfiles ha' hb' (String.le_antisymm hab hba)

lemma anyFailure_eq_of_perm (h : vs.Perm ws) : anyFailure vs = anyFailure ws := h.any_eq

lemma file_compare {ignored : List String} {f : String} {golden target : Golden} :
    (compare ignored f golden target).file = f := by
  unfold compare
  dsimp only
  split <;> rfl

lemma file_noteAge {v : Verdict} {golden target : Golden} : (v.noteAge golden target).file = v.file := by
  unfold noteAge
  split <;> rfl

end Verdict

namespace Suite

variable (files : FileAccess Id) (clock : Id Int) (s : Suite)

/-- What a worker finds out about a file. -/
def verdict (f : String) : Verdict := (s.test files clock f).2

/-- The verdicts on files, in the order of the files. -/
def verdicts (paths : List String) : List Verdict :=
  (s.planned files paths).map (Sum.elim id (s.verdict files clock))

lemma file_verdict (f : String) : (s.verdict files clock f).file = f := by
  have hremark : ∀ status message, (remark f status message).file = f := fun _ _ => rfl
  unfold verdict test
  simp only [bind, pure]
  split
  · exact hremark _ _
  · exact hremark _ _
  · split
    · exact hremark _ _
    · split
      · rfl
      · rw [Verdict.file_noteAge, Verdict.file_compare]

/-- There is something to be done with each file, and what comes of it names the file. -/
lemma files_plan (skip : List String) (seen : List (String × String)) (paths : List String) :
    List.map (fun i => (Sum.elim id (s.verdict files clock) i).file) (plan files skip seen paths) = paths := by
  induction paths generalizing seen with
  | nil => rfl
  | cons f fs ih =>
    rw [plan]
    simp only [bind, pure]
    split
    · exact congrArg (f :: ·) (ih seen)
    · split
      · exact congrArg (f :: ·) (ih seen)
      · split
        · exact congrArg (f :: ·) (ih seen)
        · exact congrArg₂ List.cons (s.file_verdict files clock f) (ih _)

lemma files_verdicts (paths : List String) : (s.verdicts files clock paths).map (·.file) = paths := by
  rw [verdicts, List.map_map]
  exact s.files_plan files clock _ [] paths

/-- The order in which a suite is worked off leaves nothing out. -/
lemma schedule_perm (items : List (Verdict ⊕ String)) : (s.schedule items).Perm items := by
  have hworkers : 0 < max 1 (min s.jobs.toNat items.length) := lt_max_of_lt_left one_pos
  refine (Pool.run_perm hworkers).trans (List.Perm.of_eq ?_)
  rw [List.map_map]
  refine (List.map_congr_left fun i _ => ?_).trans items.map_id
  cases i <;> rfl

/-- A suite fails exactly if one of the verdicts on its files is a failure. -/
lemma exit_testSuite (paths : List String) : (s.testSuite files clock paths).exit =
    if Verdict.anyFailure (s.verdicts files clock paths) then 1 else 0 := by
  have hsettled : ∀ items : List (Verdict ⊕ String),
      List.map (·.2) (items.mapM (s.settle files clock) : Id (List (Outcome × Verdict))) =
        items.map (Sum.elim id (s.verdict files clock)) := by
    intro items
    rw [show (items.mapM (s.settle files clock) : Id _) = items.map (s.settle files clock) from List.idRun_mapM,
      List.map_map]
    exact List.map_congr_left fun i _ => by cases i <;> rfl
  have hperm := (Verdict.sorted_perm _).trans ((s.schedule_perm (s.planned files paths)).map
    (Sum.elim id (s.verdict files clock)))
  show (if Verdict.anyFailure (Verdict.sorted (List.map _ (List.mapM _ _ : Id _))) then 1 else 0) = _
  rw [hsettled, Verdict.anyFailure_eq_of_perm hperm]
  rfl

/-- **The order of moves does not matter.** Whatever moves a pool for different files has made, there is room for
what the feeder or a worker sends next, and it can be brought to its end. When all workers have finished, there is
one verdict for each file, and the sorted verdicts and whether they hold a failure are those of the suite. -/
theorem interleavings_agree {paths : List String} (hpaths : paths.Nodup) {n : Nat} (hn : 0 < n)
    {q : Pool String Verdict}
    (hreaches : Pool.Reaches (s.verdict files clock) (.start (s.planned files paths) n) q) :
    q.capacity = paths.length ∧
    (q.waiting ≠ [] → (q.move? (s.verdict files clock) .feed).isSome) ∧
    (∀ w f, q.workers[w]? = some (.busy f) → (q.move? (s.verdict files clock) (.deliver w)).isSome) ∧
    (∃ q', Pool.Reaches (s.verdict files clock) q q' ∧ q'.Done) ∧
    (q.Done → (q.results.map (·.file)).Perm paths ∧
      Verdict.sorted q.results = Verdict.sorted (s.verdicts files clock paths) ∧
      (Verdict.anyFailure q.results ↔ (s.testSuite files clock paths).exit = 1)) := by
  have hinvariant := Pool.invariant_start.reaches hreaches
  have hfiles := s.files_verdicts files clock paths
  refine ⟨?_, hinvariant.feeds, fun w f => hinvariant.delivers, hinvariant.exists_done, fun hdone => ?_⟩
  · simpa [verdicts, hinvariant.capacity] using congrArg List.length hfiles
  · have hperm : q.results.Perm (s.verdicts files clock paths) := hinvariant.results_perm hn hdone
    have hnames : (q.results.map (·.file)).Perm paths := hfiles ▸ hperm.map (·.file)
    refine ⟨hnames, Verdict.sorted_eq_of_perm hperm (hnames.nodup_iff.mpr hpaths), ?_⟩
    rw [exit_testSuite, Verdict.anyFailure_eq_of_perm hperm]
    simp

/-- Two paths. -/
def twinPaths : List String := ["/a.tan", "/b.tan"]

/-- Two files with the same content and no golden files. -/
def twins : FileAccess Id where
  workingDir := "/"
  read path :=
    if twinPaths.contains path then .ok [] else .error { action := "open", path, reason := .missing }
  write _ _ := .ok ()
  makeDirs _ := .ok ()
  names _ := some ["a.tan", "b.tan"]
  present path := twinPaths.contains path
  isRegular path := twinPaths.contains path

theorem interleavings_agree_twins : twinPaths.Nodup ∧ ∃ q : Pool String Verdict,
    Pool.Reaches (verdict twins 0 {}) (.start (planned twins {} twinPaths) 2) q ∧ q.Done ∧
      (q.results.map (·.file)).Perm twinPaths := by
  have hpaths : twinPaths.Nodup := by decide
  obtain ⟨-, -, -, ⟨q, hreaches, hdone⟩, -⟩ := interleavings_agree twins 0 {} hpaths two_pos .refl
  obtain ⟨-, -, -, -, hresults⟩ := interleavings_agree twins 0 {} hpaths two_pos hreaches
  exact ⟨hpaths, q, hreaches, hdone, (hresults hdone).1⟩

end Suite

end SubrLang
