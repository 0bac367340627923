import EntityService.Tasks.Progress
import EntityService.Tasks.Deduplication
import EntityService.Database.Tables
import Mathlib.Logic.Relation

/-! The limit on the candidate pairs of a run: the tasks that compare its packages and the
aggregation that receives what they return. -/
namespace EntityService.Tasks
open Lib Cache Aggregation

/-- The tasks that an aggregation may schedule. -/
inductive FollowUp
  | markRunComplete
  | solverTask
deriving DecidableEq, Repr

structure ComparisonRun where
  tasks : Pool RunHash ComputeTask
  store : ResultStore
  followUps : List FollowUp

def ComputeTask.result? (task : ComputeTask) : Option (Option PackageResult) :=
  match task.phase with
  | .returned result => some result
  | _ => none

/-- The results of all tasks once they have returned. The task that is added to a single one
has no results. -/
def similarityResultFiles (tasks : Pool RunHash ComputeTask) :
    Option (List (Option PackageResult)) := do
  let results ← tasks.processes.mapM ComputeTask.result?
  return if results.length = 1 then results ++ [some (0, none, none)] else results

section Chord
variable {σ : Type} [LinearOrder σ] (fmt : CandidateFormat σ) (codes : Codes)
  (maxRetries maxCandidatePairs : ℕ) (resultType : ResultType) (runId : RunId)

/-- The counters of a run once it is aggregated. The next stage starts with new ones. -/
def countersAfter (resultType : ResultType) (hash : RunHash) : RunHash :=
  if resultType = .similarityScores then hash else clearProgress hash

/-- The steps of the chord of a run. The file of a result is written by the task, and files may
be left behind by an aggregation that raises. -/
inductive ChordStep (s : ComparisonRun) : ComparisonRun → Prop
  | header {tasks : Pool RunHash ComputeTask} {i : ℕ} {action : ComputeAction}
      {objects : Dict FileName Bytes} {n : ℕ}
      (h : s.tasks.step (computeFilterSimilarity maxRetries maxCandidatePairs) i action =
        some tasks) :
      ChordStep s
        { s with tasks := tasks, store := { s.store with objects := objects, codes := n } }
  | body {results : List (Option PackageResult)} {store : ResultStore}
      (hresults : similarityResultFiles s.tasks = some results)
      (h : aggregateComparisons fmt codes (some results) runId s.store = (store, .ok ())) :
      ChordStep s (if resultType = .similarityScores then
        ⟨s.tasks, store, s.followUps ++ [.markRunComplete]⟩
      else ⟨{ s.tasks with shared := clearProgress s.tasks.shared }, store,
        s.followUps ++ [.solverTask]⟩)
  | bodyRaises {results : List (Option PackageResult)} {objects : Dict FileName Bytes} {n : ℕ}
      (hresults : similarityResultFiles s.tasks = some results) :
      ChordStep s { s with store := { s.store with objects := objects, codes := n } }
  /-- The aggregation raises after its last statement, and has committed its transaction or not. -/
  | bodyInterrupted {results : List (Option PackageResult)} {store : ResultStore}
      {committed : Bool} (hresults : similarityResultFiles s.tasks = some results)
      (h : aggregateComparisons fmt codes (some results) runId s.store = (store, .ok ())) :
      ChordStep s
        { s with
          tasks := { s.tasks with shared := countersAfter resultType s.tasks.shared }
          store := if committed then store
            else { store with similarityScores := s.store.similarityScores } }

end Chord

/-- The candidate pairs of a package whose comparison has passed the check of the limit. -/
def ComputeTask.passed (task : ComputeTask) : ℕ :=
  match task.phase with
  | .withinLimit | .returned (some _) => numResults task.package
  | _ => 0

section Limit
variable {maxRetries maxCandidatePairs : ℕ} {packages : List ComparedPackage}
  {p : Pool RunHash ComputeTask}

theorem passed_le_counted (task : ComputeTask) : task.passed ≤ task.counted numResults := by
  obtain ⟨package, phase, retries⟩ := task
  rcases phase with _ | _ | _ | _ | _ | (_ | _) | _ <;>
    simp [ComputeTask.passed, ComputeTask.counted]

/-- Only the check of the limit lets a task pass. -/
theorem passed_step {hash hash' : RunHash} {task task' : ComputeTask} {action : ComputeAction}
    (hstep : ComputeStep maxCandidatePairs hash task action hash' task') :
    task'.passed ≤ task.passed ∨
      hash' = hash ∧ hash.candidates.getD 0 ≤ maxCandidatePairs := by
  obtain ⟨package, phase, retries⟩ := task
  cases hstep with
  | withinLimit h hlimit => exact .inr ⟨rfl, hlimit⟩
  | repeatSaveProgress h => exact .inl le_rfl
  | saveResult h =>
    obtain rfl : phase = .withinLimit := h
    exact .inl le_rfl
  | _ => exact .inl (Nat.zero_le _)

/-- The comparisons that have passed found no more candidate pairs than the limit. The one that
passes last has seen the candidate pairs of the others counted. -/
theorem total_passed_le
    (h : Pool.Reaches (computeFilterSimilarity maxRetries maxCandidatePairs)
      (scheduled packages) p) :
    p.total ComputeTask.passed ≤ maxCandidatePairs := by
  induction h with
  | refl =>
    have hzero : (scheduled packages).total ComputeTask.passed = 0 := by
      refine Pool.total_eq_zero.mpr fun task htask => ?_
      obtain ⟨package, -, rfl⟩ := List.mem_map.mp htask
      rfl
    rw [hzero]
    exact Nat.zero_le _
  | @step q q' i action hq hqstep ih =>
    have hcounted := (total_counted_le (hq.step hqstep)).2
    have hpassed := Pool.total_mono fun task (_ : task ∈ q'.processes) => passed_le_counted task
    obtain ⟨before, task, after, hash', task', started, hlist, -, hprogram, rfl⟩ :=
      Pool.step_eq_some.mp hqstep
    obtain ⟨rfl, hstep⟩ := computeStep_of_program hprogram
    obtain ⟨hash, processes⟩ := q
    obtain rfl : processes = before ++ task :: after := hlist
    rcases passed_step hstep with hle | ⟨rfl, hlimit⟩
    · have htotal := Pool.total_step ComputeTask.passed hash hash' before after [] task task'
      simp only [List.map_nil, List.sum_nil] at htotal
      omega
    · exact hpassed.trans (hcounted.trans hlimit)

/-- When no result is missing, every comparison has passed. -/
theorem sum_numResults_le
    (h : Pool.Reaches (computeFilterSimilarity maxRetries maxCandidatePairs) (scheduled packages) p)
    {results : List (Option PackageResult)} (hresults : similarityResultFiles p = some results)
    (hmissing : none ∉ results) : (packages.map numResults).sum ≤ maxCandidatePairs := by
  have hreturned : ∀ task ∈ p.processes, ∃ result, task.phase = .returned (some result) := by
    simp only [similarityResultFiles, Option.bind_eq_bind, Option.bind_eq_some_iff,
      Option.pure_def, Option.some.injEq] at hresults
    obtain ⟨returned, hmap, hadded⟩ := hresults
    have hsub : ∀ result ∈ returned, result ∈ results := by
      intro result hmem
      rw [← hadded]
      split_ifs
      · exact List.mem_append_left _ hmem
      · exact hmem
    intro task htask
    obtain ⟨result, hmem, hresult⟩ := mapM_some_mem hmap task htask
    cases result with
    | none => exact absurd (hsub none hmem) hmissing
    | some result =>
      refine ⟨result, ?_⟩
      unfold ComputeTask.result? at hresult
      split at hresult
      · rwa [← Option.some.inj hresult]
      · cases hresult
  have hall : p.total ComputeTask.passed = (packages.map numResults).sum := by
    rw [← total_package (packages_of_reaches h).1]
    refine Pool.total_congr fun task htask => ?_
    obtain ⟨result, hresult⟩ := hreturned task htask
    rw [ComputeTask.passed, hresult]
  exact hall ▸ total_passed_le h

end Limit

section Chord
variable {σ : Type} [LinearOrder σ] {fmt : CandidateFormat σ} {codes : Codes}
  {maxRetries maxCandidatePairs : ℕ} {resultType : ResultType} {runId : RunId}

/-- An aggregation that ends well has no result missing. -/
theorem none_notMem_of_aggregate {results : List (Option PackageResult)} {s s' : ResultStore}
    (h : aggregateComparisons fmt codes (some results) runId s = (s', .ok ())) :
    none ∉ results := by
  intro hmem
  obtain ⟨_, _, hlift, h⟩ := Action.bind_eq_ok.mp h
  obtain ⟨-, hresults⟩ := Prod.mk.inj hlift
  obtain rfl : results = _ := Except.ok.inj hresults
  obtain ⟨_, files, hlift, -⟩ := Action.bind_eq_ok.mp h
  obtain ⟨opts, hopts, -⟩ := bind_eq_ok.mp (Prod.mk.inj hlift).2
  obtain ⟨file, -, hfile⟩ := (mapM_mem hopts).2 none hmem
  cases hfile

/-- A run that finds more candidate pairs than the limit gets no file of similarity scores, and
nothing follows its aggregation. -/
theorem candidateLimit_not_bypassed {packages : List ComparedPackage} {store : ResultStore}
    (hover : maxCandidatePairs < (packages.map numResults).sum) {s : ComparisonRun}
    (h : Relation.ReflTransGen
      (ChordStep fmt codes maxRetries maxCandidatePairs resultType runId)
      ⟨scheduled packages, store, []⟩ s) :
    s.store.similarityScores = store.similarityScores ∧ s.followUps = [] := by
  suffices hinv : Pool.Reaches (computeFilterSimilarity maxRetries maxCandidatePairs)
      (scheduled packages) s.tasks ∧ s.store.similarityScores = store.similarityScores ∧
        s.followUps = [] from hinv.2
  induction h with
  | refl => exact ⟨.refl, rfl, rfl⟩
  | tail _ hstep ih =>
    obtain ⟨hreaches, hscores, hfollow⟩ := ih
    cases hstep with
    | header h => exact ⟨hreaches.step h, hscores, hfollow⟩
    | bodyRaises => exact ⟨hreaches, hscores, hfollow⟩
    | body hresults h | bodyInterrupted hresults h =>
      have hle := sum_numResults_le hreaches hresults (none_notMem_of_aggregate h)
      omega

end Chord

/-- A run of one package whose task is in a phase, with the counters as given. -/
def smallRun (comparisons candidates : Option ℕ) (phase : ComputePhase) : ComparisonRun where
  tasks := ⟨⟨some .active, comparisons, candidates⟩, [⟨smallPackage, phase, 0⟩]⟩
  store := twoFiles
  followUps := []

theorem chordStep_smallRun {c c' k k' : Option ℕ} {phase phase' : ComputePhase}
    (action : ComputeAction) (h : (smallRun c k phase).tasks.step
      (computeFilterSimilarity 3 0) 0 action = some (smallRun c' k' phase').tasks) :
    ChordStep doubleFormat longCodes 3 0 .groups "run" (smallRun c k phase)
      (smallRun c' k' phase') :=
  ChordStep.header h

/-- The one candidate pair is over a limit of none: the task returns no result. -/
theorem candidateLimit_not_bypassed_smallRun :
    (smallRun (some 4) (some 1) (.returned none)).store.similarityScores =
        twoFiles.similarityScores ∧
      (smallRun (some 4) (some 1) (.returned none)).followUps = [] := by
  have hcompare : ChordStep doubleFormat longCodes 3 0 .groups "run" (smallRun none none .pending)
      (smallRun none none .compared) := chordStep_smallRun .compare (by decide)
  have hsave : ChordStep doubleFormat longCodes 3 0 .groups "run" (smallRun none none .compared)
      (smallRun (some 4) (some 1) .counted) := chordStep_smallRun .saveProgress (by decide)
  have hcheck : ChordStep doubleFormat longCodes 3 0 .groups "run"
      (smallRun (some 4) (some 1) .counted) (smallRun (some 4) (some 1) .overLimit) :=
    chordStep_smallRun .checkLimit (by decide)
  have hmark : ChordStep doubleFormat longCodes 3 0 .groups "run"
      (smallRun (some 4) (some 1) .overLimit) (smallRun (some 4) (some 1) (.returned none)) :=
    chordStep_smallRun .markFailure (by decide)
  have hover : 0 < ([smallPackage].map numResults).sum := by decide
  exact candidateLimit_not_bypassed hover
    ((((Relation.ReflTransGen.refl.tail hcompare).tail hsave).tail hcheck).tail hmark)

end EntityService.Tasks
