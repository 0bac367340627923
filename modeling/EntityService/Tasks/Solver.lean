import EntityService.Service.RunSteps
import EntityService.Tasks.Matching
import EntityService.Tasks.ScoreFile

/-! The tasks that end a run once its score file has been written. -/
namespace EntityService.Tasks.Solver
open Lib Service ScoreFile Permutation Cache
open Aggregation (CandidatePair CandidateFormat)

section Model
variable {σ : Type}

/-- What is documented of the groups of `anonlink.solving.greedy_solve`: no two have a record in
common, none has two records of one dataset, and a record is linked to others of its group. -/
structure Solution (candidatePairs : List (CandidatePair σ)) (groups : List Group) : Prop where
  disjoint : groups.Pairwise fun g h => ∀ r ∈ g, r ∉ h
  oneOfEach : ∀ g ∈ groups, (g.map Prod.fst).Nodup
  nonempty : ∀ g ∈ groups, g ≠ []
  linked : ∀ g ∈ groups, ∀ r ∈ g, ∃ c ∈ candidatePairs,
    (r = (recordsOf c).1 ∨ r = (recordsOf c).2) ∧ (recordsOf c).1 ∈ g ∧ (recordsOf c).2 ∈ g

/-- `anonlink.candidate_generation._merge_similarities` without a limit, and
`anonlink.solving.greedy_solve`. -/
structure AnonlinkSolver (σ : Type) where
  mergeSimilarities : List (CandidatePair σ) → List (CandidatePair σ)
  greedySolve : List (CandidatePair σ) → List Group
  mem_mergeSimilarities : ∀ cs c, c ∈ mergeSimilarities cs ↔ c ∈ cs
  solution : ∀ cs, Solution cs (greedySolve cs)

/-- The sizes of the datasets of the project, in the order of the data providers. -/
def getProjectDatasetSizes (s : Storage) (projectId : ProjectId) : List ℤ :=
  ((s.db.providerUploads projectId).insertionSort fun r q => r.1.id ≤ q.1.id).map
    fun r => r.2.count

def markRunComplete (runId : RunId) : Action Storage Error Unit := do
  Action.modify fun s => { s with toServer := s.toServer.modifyRun runId markComplete }
  Action.modify fun s =>
    { s with toServer := s.toServer.setHash runId (setRunStateComplete (s.hash runId)) }

/-- The last transaction of `aggregate_comparisons`. A run with groups goes to its next stage. -/
def recordScores (projectId : ProjectId) (runId : RunId) (mergedFilename : FileName) :
    Action Storage Error (ResultType × List ℤ) := do
  let s ← Action.get
  let resultType ← Action.lift (s.getResultType projectId)
  Action.atomic fun s => do
    let s ← s.insertSimilarityScoreFile runId mergedFilename
    if resultType = .similarityScores then return s
    else
      let progressed := s.toServer.modifyRun runId progressStage
      return { s with toServer := progressed.setHash runId (clearProgress (s.hash runId)) }
  return (resultType, getProjectDatasetSizes s projectId)

variable [LinearOrder σ] (fmt : CandidateFormat σ) (anonlink : AnonlinkSolver σ)
  (solverMaxCandidatePairs : ℕ) (shuffles : Shuffles)

/-- The groups of the candidate pairs of a file. A run with too many of them fails. -/
def solverTask (similarityScoresFilename : FileName) (runId : RunId) :
    Action Storage Error (Option (List Group)) := do
  let s ← Action.get
  let scoreFile ← Action.lift (orRaise (s.objects.get? similarityScoresFilename) .s3Error)
  let candidatePairsWithDuplicates ← Action.lift (fmt.load scoreFile.data)
  if 0 < candidatePairsWithDuplicates.length then
    let candidatePairs := anonlink.mergeSimilarities candidatePairsWithDuplicates
    if solverMaxCandidatePairs < candidatePairs.length then
      Action.modify fun s => { s with toServer := s.toServer.modifyRun runId markFailure }
      return none
    else return some (anonlink.greedySolve candidatePairs)
  else return some []

/-- Save the groups. The permutations are made by a task of their own. -/
def saveAndPermute (projectId : ProjectId) (runId : RunId) (groups : List Group) :
    Action Storage Error ResultType := do
  let s ← Action.get
  let resultType ← Action.lift (s.getResultType projectId)
  Action.atomic fun s => s.insertMappingResult runId groups
  return resultType

/-- The tasks of a run after the score file has been written, each started by the one before. -/
def finishRun (projectId : ProjectId) (runId : RunId) (mergedFilename : FileName) :
    Action Storage Error Unit := do
  let (resultType, datasetSizes) ← recordScores projectId runId mergedFilename
  if resultType = .similarityScores then markRunComplete runId
  else
    let groups ← solverTask fmt anonlink solverMaxCandidatePairs mergedFilename runId
    match groups with
    | none => return ()
    | some groups =>
      let resultType ← saveAndPermute projectId runId groups
      if resultType = .permutations then
        match datasetSizes with
        | [dataset0Size, dataset1Size] =>
          permuteMappingData shuffles projectId runId dataset0Size.toNat dataset1Size.toNat
          markRunComplete runId
        | _ => Action.raise .valueError
      else markRunComplete runId

end Model

section Solving
variable {σ : Type} {cs : List (CandidatePair σ)} {groups : List Group}

theorem Solution.of_mem {cs' : List (CandidatePair σ)} (h : Solution cs groups)
    (hmem : ∀ c ∈ cs, c ∈ cs') : Solution cs' groups where
  disjoint := h.disjoint
  oneOfEach := h.oneOfEach
  nonempty := h.nonempty
  linked g hg r hr := by
    obtain ⟨c, hc, hlinked⟩ := h.linked g hg r hr
    exact ⟨c, hmem c hc, hlinked⟩

theorem solution_nil (cs : List (CandidatePair σ)) : Solution cs [] :=
  ⟨List.Pairwise.nil, by simp, by simp, by simp⟩

/-- The candidate pairs are of records of the first and of the second dataset. -/
def OfTwo (n₁ n₂ : ℕ) (cs : List (CandidatePair σ)) : Prop :=
  ∀ c ∈ cs, c.dsetI0 = 0 ∧ c.dsetI1 = 1 ∧ c.recI0.toNat < n₁ ∧ c.recI1.toNat < n₂

/-- Between two datasets a group is a candidate pair. -/
theorem Solution.exists_pair (h : Solution cs groups) {n₁ n₂ : ℕ} (htwo : OfTwo n₁ n₂ cs)
    {g : Group} (hg : g ∈ groups) : ∃ c ∈ cs, Pairs g (c.recI0.toNat, c.recI1.toNat) := by
  obtain ⟨r, hr⟩ := List.exists_mem_of_ne_nil g (h.nonempty g hg)
  obtain ⟨c, hc, -, hleft, hright⟩ := h.linked g hg r hr
  have hrecords : ∀ c ∈ cs, recordsOf c = ((0, c.recI0.toNat), (1, c.recI1.toNat)) := by
    intro c hc
    obtain ⟨hzero, hone, -⟩ := htwo c hc
    rw [recordsOf, hzero, hone]
    rfl
  rw [hrecords c hc] at hleft hright
  refine ⟨c, hc, ?_⟩
  -- a third record would be of a dataset that has one in the group already
  have hdatasets : ∀ r ∈ g, r.1 = 0 ∨ r.1 = 1 := by
    intro r hr
    obtain ⟨c', hc', hrecord, -⟩ := h.linked g hg r hr
    rw [hrecords c' hc'] at hrecord
    rcases hrecord with rfl | rfl
    · exact .inl rfl
    · exact .inr rfl
  have hnodup := h.oneOfEach g hg
  have hinj := List.inj_on_of_nodup_map hnodup
  have hall : ∀ r ∈ g, r = (0, c.recI0.toNat) ∨ r = (1, c.recI1.toNat) := by
    intro r hr
    rcases hdatasets r hr with hzero | hone
    · exact .inl (hinj hr hleft hzero)
    · exact .inr (hinj hr hright hone)
  have hperm : g.Perm [(0, c.recI0.toNat), (1, c.recI1.toNat)] := by
    refine (List.perm_ext_iff_of_nodup hnodup.of_map (by simp)).mpr fun r => ?_
    constructor
    · intro hr
      simpa using hall r hr
    · intro hr
      rcases List.mem_pair.mp hr with rfl | rfl
      · exact hleft
      · exact hright
  exact List.perm_pair.mp hperm

theorem Solution.matching (h : Solution cs groups) {n₁ n₂ : ℕ} (htwo : OfTwo n₁ n₂ cs) :
    Permutation.Matching n₁ n₂ groups where
  pairs g hg := by
    obtain ⟨c, hc, hpair⟩ := h.exists_pair htwo hg
    obtain ⟨-, -, hlt1, hlt2⟩ := htwo c hc
    exact ⟨_, hpair, hlt1, hlt2⟩
  disjoint := h.disjoint

end Solving
section Steps
variable {σ : Type} [LinearOrder σ] {fmt : CandidateFormat σ} {anonlink : AnonlinkSolver σ}
  {solverMaxCandidatePairs : ℕ} {shuffles : Shuffles} {s : Storage} {projectId : ProjectId}
  {runId : RunId} {mergedFilename : FileName}

/-- The candidate pairs of the score file, if it is in the bucket. -/
def HasScores (fmt : CandidateFormat σ) (s : Storage) (filename : FileName)
    (cs : List (CandidatePair σ)) : Prop :=
  ∃ object, s.objects.get? filename = some object ∧ object.data = fmt.dump cs

theorem getResultType_eq_ok {resultType : ResultType} : s.getResultType projectId = .ok resultType ↔
    ∃ row, s.db.findProject projectId = some row ∧ row.resultType = resultType := by
  simp only [Storage.getResultType, bind_eq_ok, orRaise_eq_ok, pure_eq_ok, Except.ok.injEq]

def recorded (s : Storage) (runId : RunId) (mergedFilename : FileName) : Storage :=
  { s with
    toServer := (s.toServer.modifyRun runId progressStage).setHash runId
      (clearProgress (s.hash runId))
    similarityScores := s.similarityScores ++ [(runId, mergedFilename)] }

theorem recordScores_ok {resultType : ResultType}
    (htype : s.getResultType projectId = .ok resultType)
    (hgroups : resultType ≠ .similarityScores) (hrun : s.RunExists runId)
    (mergedFilename : FileName) :
    recordScores projectId runId mergedFilename s =
      (recorded s runId mergedFilename,
        .ok (resultType, getProjectDatasetSizes s projectId)) := by
  have hinsert : s.insertSimilarityScoreFile runId mergedFilename =
      .ok { s with similarityScores := s.similarityScores ++ [(runId, mergedFilename)] } := by
    unfold Storage.insertSimilarityScoreFile
    rw [(ensure_eq_ok (a := ())).mpr hrun]
    rfl
  have hcommit : (do
      let t ← s.insertSimilarityScoreFile runId mergedFilename
      if resultType = .similarityScores then return t
      else
        let progressed := t.toServer.modifyRun runId progressStage
        return { t with toServer := progressed.setHash runId (clearProgress (t.hash runId)) }) =
      Except.ok (recorded s runId mergedFilename) := by
    rw [hinsert, ok_bind, if_neg hgroups]
    rfl
  unfold recordScores
  rw [Action.get_bind, htype, Action.lift_ok_bind, Action.bind_of_ok (Action.atomic_of_ok hcommit)]
  rfl

/-- A file with few enough candidate pairs is solved. -/
theorem solverTask_ok {cs : List (CandidatePair σ)} (hscores : HasScores fmt s mergedFilename cs)
    (hfew : (anonlink.mergeSimilarities cs).length ≤ solverMaxCandidatePairs) (runId : RunId) :
    ∃ groups, solverTask fmt anonlink solverMaxCandidatePairs mergedFilename runId s =
      (s, .ok (some groups)) ∧ Solution cs groups := by
  obtain ⟨object, hobject, hdata⟩ := hscores
  unfold CandidateFormat.dump at hdata
  unfold solverTask
  rw [Action.get_bind, hobject, orRaise, Option.elim_some, Action.lift_ok_bind, hdata,
    fmt.load_dump, Action.lift_ok_bind]
  by_cases hpos : 0 < cs.length
  · rw [if_pos hpos, if_neg (not_lt.mpr hfew)]
    have hsolution := anonlink.solution (anonlink.mergeSimilarities cs)
    exact ⟨_, rfl, hsolution.of_mem fun c hc => (anonlink.mem_mergeSimilarities cs c).mp hc⟩
  · rw [if_neg hpos]
    exact ⟨_, rfl, solution_nil cs⟩

theorem solverTask_tooMany {cs : List (CandidatePair σ)}
    (hscores : HasScores fmt s mergedFilename cs)
    (hmany : solverMaxCandidatePairs < (anonlink.mergeSimilarities cs).length) (runId : RunId) :
    solverTask fmt anonlink solverMaxCandidatePairs mergedFilename runId s =
      ({ s with toServer := s.toServer.modifyRun runId markFailure }, .ok none) := by
  obtain ⟨object, hobject, hdata⟩ := hscores
  unfold CandidateFormat.dump at hdata
  have hpos : 0 < cs.length := by
    obtain ⟨c, hc⟩ := List.exists_mem_of_length_pos ((Nat.zero_le _).trans_lt hmany)
    exact List.length_pos_of_mem ((anonlink.mem_mergeSimilarities cs c).mp hc)
  unfold solverTask
  rw [Action.get_bind, hobject, orRaise, Option.elim_some, Action.lift_ok_bind, hdata,
    fmt.load_dump, Action.lift_ok_bind, if_pos hpos, if_pos hmany]
  rfl

theorem saveAndPermute_ok {resultType : ResultType}
    (htype : s.getResultType projectId = .ok resultType) (hrun : s.RunExists runId)
    (groups : List Group) :
    saveAndPermute projectId runId groups s =
      ({ s with runResults := s.runResults ++ [⟨runId, groups⟩] }, .ok resultType) := by
  have hinsert : s.insertMappingResult runId groups =
      .ok { s with runResults := s.runResults ++ [⟨runId, groups⟩] } := by
    unfold Storage.insertMappingResult
    rw [(ensure_eq_ok (a := ())).mpr hrun]
    rfl
  unfold saveAndPermute
  rw [Action.get_bind, htype, Action.lift_ok_bind, Action.bind_of_ok (Action.atomic_of_ok hinsert)]
  rfl

end Steps

end EntityService.Tasks.Solver
