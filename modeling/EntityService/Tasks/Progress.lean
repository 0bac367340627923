import EntityService.Tasks.Comparing

/-! The progress counters of a run. They are exact as long as no exception is raised between
the update of the counters and the return of a task: the retry would count the work again. -/
namespace EntityService.Tasks
open Lib Cache

/-- The counters have been updated and the task has not returned. -/
def ComputePhase.Counting : ComputePhase → Bool
  | .counted | .overLimit | .withinLimit => true
  | _ => false

/-- No exception is raised once the counters have been updated, until the task returns. -/
def countedOnce (_ : RunHash) (task : ComputeTask) : ComputeAction → Bool
  | .repeatSaveProgress => false
  | .raise => !task.phase.Counting
  | _ => true

/-- The work that the execution under way has counted for certain, and may have counted. -/
def ComputeTask.counted (measure : ComparedPackage → ℕ) (task : ComputeTask) : ℕ :=
  match task.phase with
  | .counted | .overLimit | .withinLimit | .returned (some _) => measure task.package
  | _ => 0

def ComputeTask.countedAtMost (measure : ComparedPackage → ℕ) (task : ComputeTask) : ℕ :=
  match task.phase with
  | .returned none => measure task.package
  | _ => task.counted measure

/-- The counters never exceed the work of all packages, and they are its exact amount once
every package has returned a result. -/
structure ExactProgress (packages : List ComparedPackage) (p : Pool RunHash ComputeTask) :
    Prop where
  comparisons_le : p.shared.comparisons.getD 0 ≤ (packages.map numComparisons).sum
  candidates_le : p.shared.candidates.getD 0 ≤ (packages.map numResults).sum
  exact : (∀ task ∈ p.processes, ∃ result, task.phase = .returned (some result)) →
    p.shared.comparisons.getD 0 = (packages.map numComparisons).sum ∧
      p.shared.candidates.getD 0 = (packages.map numResults).sum

section Step
variable {maxRetries maxCandidatePairs : ℕ} {hash hash' : RunHash} {task task' : ComputeTask}
  {action : ComputeAction} (counter : RunHash → Option ℕ) (measure : ComparedPackage → ℕ)

theorem counted_step (hstep : ComputeStep maxCandidatePairs hash task action hash' task')
    (hsave : task.phase = .compared → (counter (saveCurrentProgress (numComparisons task.package)
      (numResults task.package) hash)).getD 0 = (counter hash).getD 0 + measure task.package) :
    task'.counted measure + (counter hash).getD 0 ≤
      task.counted measure + (counter hash').getD 0 := by
  obtain ⟨package, phase, retries⟩ := task
  cases hstep with
  | saveProgress h =>
    rw [hsave h]
    simp only [ComputeTask.counted]
    omega
  | repeatSaveProgress h =>
    rw [hsave h]
    omega
  | overLimit h =>
    obtain rfl : phase = .counted := h
    exact le_rfl
  | withinLimit h =>
    obtain rfl : phase = .counted := h
    exact le_rfl
  | saveResult h =>
    obtain rfl : phase = .withinLimit := h
    exact le_rfl
  | _ => simp [ComputeTask.counted]

/-- The counter grows only with what an execution may have counted. -/
theorem countedAtMost_step (hok : countedOnce hash task action)
    (hstep : ComputeStep maxCandidatePairs hash task action hash' task')
    (hsave : task.phase = .compared → (counter (saveCurrentProgress (numComparisons task.package)
      (numResults task.package) hash)).getD 0 = (counter hash).getD 0 + measure task.package) :
    task.countedAtMost measure + (counter hash').getD 0 ≤
      task'.countedAtMost measure + (counter hash).getD 0 := by
  obtain ⟨package, phase, retries⟩ := task
  -- An execution that may be repeated has counted nothing yet.
  have hretry : countedOnce hash ⟨package, phase, retries⟩ .raise →
      (∀ result, phase ≠ .returned result) →
        ComputeTask.countedAtMost measure ⟨package, phase, retries⟩ = 0 := by
    intro hcounting hreturned
    cases phase with
    | returned result => exact absurd rfl (hreturned result)
    | counted | overLimit | withinLimit => cases hcounting
    | _ => rfl
  cases hstep with
  | saveProgress h =>
    rw [hsave h]
    obtain rfl : phase = .compared := h
    simp only [ComputeTask.countedAtMost, ComputeTask.counted]
    omega
  | repeatSaveProgress h => cases hok
  | swallow h | compare h | overLimit h | withinLimit h | markFailure h | saveResult h =>
    obtain rfl := h
    simp [ComputeTask.countedAtMost, ComputeTask.counted]
  | retry h | fail h =>
    rw [hretry hok h]
    omega

end Step

section Reaches
variable {maxRetries maxCandidatePairs : ℕ} {packages : List ComparedPackage}
  {p : Pool RunHash ComputeTask}

/-- The packages of the tasks stay the ones that were scheduled, and what is compared has
encodings. -/
theorem packages_of_reaches
    (h : Pool.Reaches (computeFilterSimilarity maxRetries maxCandidatePairs)
      (scheduled packages) p) :
    p.processes.map ComputeTask.package = packages ∧
      ∀ task ∈ p.processes, task.phase = .compared → NoZeroSizedChunk task.package := by
  refine h.invariant (I := fun p => p.processes.map ComputeTask.package = packages ∧
    ∀ task ∈ p.processes, task.phase = .compared → NoZeroSizedChunk task.package) ?_ ?_
  · constructor
    · rw [scheduled, List.map_map]
      exact List.map_id packages
    · intro task htask
      obtain ⟨package, -, rfl⟩ := List.mem_map.mp htask
      simp
  · rintro hash before task after action hash' task' started - ⟨hpackages, hsize⟩ hprogram
    obtain ⟨rfl, hstep⟩ := computeStep_of_program hprogram
    have htask := hsize task (by simp)
    constructor
    · rw [← hpackages]
      cases hstep <;> simp
    · refine Pool.forall_step hsize (fun _ _ hu => hu) (fun _ => ?_) (by simp)
      cases hstep with
      | compare _ hsize => exact fun _ => hsize
      | repeatSaveProgress => exact htask
      | _ => simp

/-- Saving the progress of a compared package adds its work to both counters. -/
theorem saveCurrentProgress_of_reaches
    (h : Pool.Reaches (computeFilterSimilarity maxRetries maxCandidatePairs) (scheduled packages) p)
    {task : ComputeTask} (htask : task ∈ p.processes) (hphase : task.phase = .compared)
    (hash : RunHash) :
    (saveCurrentProgress (numComparisons task.package) (numResults task.package)
        hash).comparisons.getD 0 = hash.comparisons.getD 0 + numComparisons task.package ∧
      (saveCurrentProgress (numComparisons task.package) (numResults task.package)
        hash).candidates.getD 0 = hash.candidates.getD 0 + numResults task.package :=
  saveCurrentProgress_counts (numResults_eq_zero ((packages_of_reaches h).2 task htask hphase)) hash

theorem total_counted_le
    (h : Pool.Reaches (computeFilterSimilarity maxRetries maxCandidatePairs)
      (scheduled packages) p) :
    p.total (ComputeTask.counted numComparisons) ≤ p.shared.comparisons.getD 0 ∧
      p.total (ComputeTask.counted numResults) ≤ p.shared.candidates.getD 0 := by
  refine h.invariant (I := fun p => p.total (ComputeTask.counted numComparisons) ≤
    p.shared.comparisons.getD 0 ∧ p.total (ComputeTask.counted numResults) ≤
      p.shared.candidates.getD 0) ?_ ?_
  · have hzero : ∀ measure : ComparedPackage → ℕ,
        (scheduled packages).total (ComputeTask.counted measure) = 0 := by
      intro measure
      refine Pool.total_eq_zero.mpr fun task htask => ?_
      obtain ⟨package, -, rfl⟩ := List.mem_map.mp htask
      rfl
    rw [hzero, hzero]
    exact ⟨Nat.zero_le _, Nat.zero_le _⟩
  · rintro hash before task after action hash' task' started hreaches ⟨hcomparisons, hcandidates⟩
      hprogram
    obtain ⟨rfl, hstep⟩ := computeStep_of_program hprogram
    have hsave := fun hphase =>
      saveCurrentProgress_of_reaches hreaches (List.mem_append_cons_self) hphase hash
    have hstep1 := counted_step RunHash.comparisons numComparisons hstep
      fun hphase => (hsave hphase).1
    have hstep2 := counted_step RunHash.candidates numResults hstep
      fun hphase => (hsave hphase).2
    have htotal1 := Pool.total_step (ComputeTask.counted numComparisons) hash hash' before after []
      task
      task'
    have htotal2 := Pool.total_step (ComputeTask.counted numResults) hash hash' before after [] task
      task'
    simp only [List.map_nil, List.sum_nil] at htotal1 htotal2
    dsimp only at hcomparisons hcandidates ⊢
    omega

/-- The counters are at most what the executions may have counted, if none counts twice. -/
theorem le_total_countedAtMost
    (h : Pool.Reaches ((computeFilterSimilarity maxRetries maxCandidatePairs).restrict countedOnce)
      (scheduled packages) p) :
    p.shared.comparisons.getD 0 ≤ p.total (ComputeTask.countedAtMost numComparisons) ∧
      p.shared.candidates.getD 0 ≤ p.total (ComputeTask.countedAtMost numResults) := by
  refine h.invariant (I := fun p => p.shared.comparisons.getD 0 ≤
    p.total (ComputeTask.countedAtMost numComparisons) ∧ p.shared.candidates.getD 0 ≤
      p.total (ComputeTask.countedAtMost numResults)) ⟨Nat.zero_le _, Nat.zero_le _⟩ ?_
  rintro hash before task after action hash' task' started hreaches ⟨hcomparisons, hcandidates⟩
    hprogram
  unfold Program.restrict at hprogram
  split_ifs at hprogram with hok
  obtain ⟨rfl, hstep⟩ := computeStep_of_program hprogram
  have hsave := fun hphase =>
    saveCurrentProgress_of_reaches hreaches.of_restrict (List.mem_append_cons_self) hphase hash
  have hstep1 := countedAtMost_step RunHash.comparisons numComparisons
    hok hstep fun hphase => (hsave hphase).1
  have hstep2 := countedAtMost_step RunHash.candidates numResults
    hok hstep fun hphase => (hsave hphase).2
  have htotal1 := Pool.total_step (ComputeTask.countedAtMost numComparisons) hash hash' before
    after [] task
      task'
  have htotal2 := Pool.total_step (ComputeTask.countedAtMost numResults) hash hash' before after
    [] task
      task'
  simp only [List.map_nil, List.sum_nil] at htotal1 htotal2
  dsimp only at hcomparisons hcandidates ⊢
  omega

theorem total_package (hpackages : p.processes.map ComputeTask.package = packages)
    (measure : ComparedPackage → ℕ) :
    p.total (fun task => measure task.package) = (packages.map measure).sum := by
  rw [← hpackages, Pool.total, List.map_map]
  rfl

theorem countedAtMost_le (measure : ComparedPackage → ℕ) (task : ComputeTask) :
    task.countedAtMost measure ≤ measure task.package := by
  obtain ⟨package, phase, retries⟩ := task
  rcases phase with _ | _ | _ | _ | _ | (_ | _) | _ <;>
    simp [ComputeTask.countedAtMost, ComputeTask.counted]

/-- The counters never exceed the work of all packages, if none is counted twice. -/
theorem counters_le
    (h : Pool.Reaches ((computeFilterSimilarity maxRetries maxCandidatePairs).restrict countedOnce)
      (scheduled packages) p) :
    p.shared.comparisons.getD 0 ≤ (packages.map numComparisons).sum ∧
      p.shared.candidates.getD 0 ≤ (packages.map numResults).sum := by
  have hpackages := (packages_of_reaches h.of_restrict).1
  obtain ⟨hhigh1, hhigh2⟩ := le_total_countedAtMost h
  have hmost : ∀ measure, p.total (ComputeTask.countedAtMost measure) ≤
      (packages.map measure).sum := by
    intro measure
    rw [← total_package hpackages]
    exact Pool.total_mono fun task _ => countedAtMost_le measure task
  exact ⟨hhigh1.trans (hmost _), hhigh2.trans (hmost _)⟩

/-- In a run in which no exception is raised between the update of the counters and the return
of a task, the counters are exact at all times. -/
theorem exactProgress_of_countedOnce
    (h : Pool.Reaches ((computeFilterSimilarity maxRetries maxCandidatePairs).restrict countedOnce)
      (scheduled packages) p) : ExactProgress packages p := by
  have hpackages := (packages_of_reaches h.of_restrict).1
  obtain ⟨hlow1, hlow2⟩ := total_counted_le h.of_restrict
  obtain ⟨hhigh1, hhigh2⟩ := counters_le h
  refine ⟨hhigh1, hhigh2, fun hreturned => ?_⟩
  have hall : ∀ measure, p.total (ComputeTask.counted measure) = (packages.map measure).sum := by
    intro measure
    rw [← total_package hpackages]
    refine Pool.total_congr fun task htask => ?_
    obtain ⟨result, hresult⟩ := hreturned task htask
    rw [ComputeTask.counted, hresult]
  exact ⟨le_antisymm hhigh1 (hall numComparisons ▸ hlow1),
    le_antisymm hhigh2 (hall numResults ▸ hlow2)⟩

end Reaches

/-- One chunk with two encodings on either side and one pair above the threshold. -/
def smallPackage : ComparedPackage := [⟨2, 2, 1⟩]

/-- The pool of the package after its task has returned, with the counters as given. -/
def smallReturned (comparisons candidates retries : ℕ) : Pool RunHash ComputeTask where
  shared := ⟨some .active, some comparisons, some candidates⟩
  processes := [⟨smallPackage, .returned (some (1, some 28, some "similarity-scores/b.bin")),
    retries⟩]

theorem exactProgress_withoutException : ExactProgress [smallPackage] (smallReturned 4 1 0) := by
  have hrun : (scheduled [smallPackage]).run ((computeFilterSimilarity 3 10).restrict countedOnce)
      [(0, .compare), (0, .saveProgress), (0, .checkLimit),
        (0, .saveResult 28 "similarity-scores/b.bin")] = some (smallReturned 4 1 0) := by decide
  exact exactProgress_of_countedOnce (Pool.reaches_of_run hrun)

/-- The file of the result cannot be stored at first, and the retry counts the package again. -/
theorem not_exactProgress_retriedSave :
    (scheduled [smallPackage]).run (computeFilterSimilarity 3 10)
      [(0, .compare), (0, .saveProgress), (0, .checkLimit), (0, .raise), (0, .compare),
        (0, .saveProgress), (0, .checkLimit), (0, .saveResult 28 "similarity-scores/b.bin")] =
          some (smallReturned 8 2 1) ∧
    ¬ ExactProgress [smallPackage] (smallReturned 8 2 1) := by
  refine ⟨by decide, fun h => ?_⟩
  have hle := h.comparisons_le
  revert hle
  decide

end EntityService.Tasks
