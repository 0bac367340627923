import EntityService.Cache
import EntityService.Lib.Pool
import EntityService.Tasks.Aggregation

/-! The tasks that compute the similarities of the packages of a run. They run in any order,
count their work in the cache and are retried from the start after an exception. -/
namespace EntityService.Tasks
open Lib Cache

/-- The numbers of encodings of a chunk and of its pairs that reach the threshold. -/
structure ComparedChunk where
  encDp1Size : ℕ
  encDp2Size : ℕ
  sims : ℕ
deriving DecidableEq, Repr

abbrev ComparedPackage := List ComparedChunk

def numComparisons (package : ComparedPackage) : ℕ :=
  (package.map fun chunk => chunk.encDp1Size * chunk.encDp2Size).sum

def numResults (package : ComparedPackage) : ℕ := (package.map ComparedChunk.sims).sum

/-- The assertions on the sizes of the chunks hold. -/
def NoZeroSizedChunk (package : ComparedPackage) : Prop :=
  ∀ chunk ∈ package, 0 < chunk.encDp1Size ∧ 0 < chunk.encDp2Size

instance (package : ComparedPackage) : Decidable (NoZeroSizedChunk package) :=
  inferInstanceAs (Decidable (∀ chunk ∈ package, _))

/-- How far an execution has come. -/
inductive ComputePhase
  | pending
  | compared
  | counted
  | overLimit
  | withinLimit
  | returned (result : Option Aggregation.PackageResult)
  | failed
deriving DecidableEq, Repr

structure ComputeTask where
  package : ComparedPackage
  phase : ComputePhase
  retries : ℕ
deriving DecidableEq, Repr

inductive ComputeAction
  /-- The run is not active: the exception is swallowed. -/
  | inactive
  | compare
  /-- The encodings cannot be compared: the exception is swallowed. -/
  | notImplemented
  | saveProgress
  /-- The counters are updated, but the call raises and its decorator repeats it. -/
  | repeatSaveProgress
  | checkLimit
  | markFailure
  | saveResult (filesize : ℕ) (filename : FileName)
  /-- An exception is raised, and the task retried or failed. -/
  | raise
deriving DecidableEq, Repr

/-- The value of a comparison within the limit. No file is written without results. -/
def packageResult (package : ComparedPackage) (filesize : ℕ) (filename : FileName) :
    Aggregation.PackageResult :=
  if numResults package = 0 then (0, none, none)
  else (numResults package, some filesize, some filename)

/-- The steps of `compute_filter_similarity`, of which the cache sees one at a time. -/
def computeFilterSimilarity (maxRetries maxCandidatePairs : ℕ) :
    Program RunHash ComputeTask ComputeAction := fun hash task action =>
  match task.phase, action with
  | .pending, .inactive => some (hash, { task with phase := .returned none }, [])
  | .pending, .compare =>
    if NoZeroSizedChunk task.package then some (hash, { task with phase := .compared }, [])
    else none
  | .pending, .notImplemented => some (hash, { task with phase := .returned none }, [])
  | .compared, .saveProgress =>
    some (saveCurrentProgress (numComparisons task.package) (numResults task.package) hash,
      { task with phase := .counted }, [])
  | .compared, .repeatSaveProgress =>
    some (saveCurrentProgress (numComparisons task.package) (numResults task.package) hash, task,
      [])
  | .counted, .checkLimit =>
    let globalCandidatesForRun := getCandidateCountForRun hash
    if ∃ count ∈ globalCandidatesForRun, maxCandidatePairs < count then
      some (hash, { task with phase := .overLimit }, [])
    else some (hash, { task with phase := .withinLimit }, [])
  | .overLimit, .markFailure => some (hash, { task with phase := .returned none }, [])
  | .withinLimit, .saveResult filesize filename =>
    some (hash, { task with
      phase := .returned (some (packageResult task.package filesize filename)) }, [])
  | .returned _, _ => none
  | .failed, _ => none
  | _, .raise =>
    if task.retries < maxRetries then
      some (hash, { task with phase := .pending, retries := task.retries + 1 }, [])
    else some (hash, { task with phase := .failed }, [])
  | _, _ => none

def scheduled (packages : List ComparedPackage) : Pool RunHash ComputeTask where
  shared := ⟨some .active, none, none⟩
  processes := packages.map fun package => ⟨package, .pending, 0⟩

/-- Chunks that have encodings are compared, so candidate pairs come with comparisons. -/
theorem numResults_eq_zero {package : ComparedPackage} (h : NoZeroSizedChunk package)
    (hcomparisons : numComparisons package = 0) : numResults package = 0 := by
  cases package with
  | nil => rfl
  | cons chunk package =>
    obtain ⟨h1, h2⟩ := h chunk List.mem_cons_self
    have hpos := Nat.mul_pos h1 h2
    simp only [numComparisons, List.map_cons, List.sum_cons] at hcomparisons
    omega

inductive ComputeStep (maxCandidatePairs : ℕ) (hash : RunHash) (task : ComputeTask) :
    ComputeAction → RunHash → ComputeTask → Prop
  | swallow {action : ComputeAction} (h : task.phase = .pending) :
      ComputeStep maxCandidatePairs hash task action hash { task with phase := .returned none }
  | compare (h : task.phase = .pending) (hsize : NoZeroSizedChunk task.package) :
      ComputeStep maxCandidatePairs hash task .compare hash { task with phase := .compared }
  | saveProgress (h : task.phase = .compared) :
      ComputeStep maxCandidatePairs hash task .saveProgress
        (saveCurrentProgress (numComparisons task.package) (numResults task.package) hash)
        { task with phase := .counted }
  | repeatSaveProgress (h : task.phase = .compared) :
      ComputeStep maxCandidatePairs hash task .repeatSaveProgress
        (saveCurrentProgress (numComparisons task.package) (numResults task.package) hash) task
  | overLimit (h : task.phase = .counted) :
      ComputeStep maxCandidatePairs hash task .checkLimit hash { task with phase := .overLimit }
  | withinLimit (h : task.phase = .counted)
      (hlimit : hash.candidates.getD 0 ≤ maxCandidatePairs) :
      ComputeStep maxCandidatePairs hash task .checkLimit hash { task with phase := .withinLimit }
  | markFailure (h : task.phase = .overLimit) :
      ComputeStep maxCandidatePairs hash task .markFailure hash
        { task with phase := .returned none }
  | saveResult (h : task.phase = .withinLimit) (filesize : ℕ) (filename : FileName) :
      ComputeStep maxCandidatePairs hash task (.saveResult filesize filename) hash
        { task with phase := .returned (some (packageResult task.package filesize filename)) }
  | retry (hreturned : ∀ result, task.phase ≠ .returned result) :
      ComputeStep maxCandidatePairs hash task .raise hash
        { task with phase := .pending, retries := task.retries + 1 }
  | fail (hreturned : ∀ result, task.phase ≠ .returned result) :
      ComputeStep maxCandidatePairs hash task .raise hash { task with phase := .failed }

theorem computeStep_of_program {maxRetries maxCandidatePairs : ℕ} {hash hash' : RunHash}
    {task task' : ComputeTask} {action : ComputeAction} {started : List ComputeTask}
    (h : computeFilterSimilarity maxRetries maxCandidatePairs hash task action =
      some (hash', task', started)) :
    started = [] ∧ ComputeStep maxCandidatePairs hash task action hash' task' := by
  unfold computeFilterSimilarity at h
  split at h
  case h_1 hphase =>
    cases h
    exact ⟨rfl, .swallow hphase⟩
  case h_2 hphase =>
    split_ifs at h with hsize
    cases h
    exact ⟨rfl, .compare hphase hsize⟩
  case h_3 hphase =>
    cases h
    exact ⟨rfl, .swallow hphase⟩
  case h_4 hphase =>
    cases h
    exact ⟨rfl, .saveProgress hphase⟩
  case h_5 hphase =>
    cases h
    exact ⟨rfl, .repeatSaveProgress hphase⟩
  case h_6 hphase =>
    dsimp only at h
    split_ifs at h with hlimit
    · cases h
      exact ⟨rfl, .overLimit hphase⟩
    · cases h
      refine ⟨rfl, .withinLimit hphase ?_⟩
      cases hc : hash.candidates with
      | none => exact Nat.zero_le _
      | some count =>
        simp only [getCandidateCountForRun, hc, Option.mem_def, Option.some.injEq,
          exists_eq_left', not_lt] at hlimit
        exact hlimit
  case h_7 hphase =>
    cases h
    exact ⟨rfl, .markFailure hphase⟩
  case h_8 filesize filename hphase =>
    cases h
    exact ⟨rfl, .saveResult hphase filesize filename⟩
  case h_9 => cases h
  case h_10 => cases h
  case h_11 hreturned _ =>
    split_ifs at h with hretries
    · cases h
      exact ⟨rfl, .retry hreturned⟩
    · cases h
      exact ⟨rfl, .fail hreturned⟩
  case h_12 => cases h

end EntityService.Tasks
