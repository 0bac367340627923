import EntityService.Service.State

/-! The results of the runs and where they are stored: the tables of results, and the bucket with
the raw uploads and the files of similarity scores. -/
namespace EntityService.Service
open Lib

abbrev Record := ℕ × ℕ

/-- Records that are taken to be of one entity. -/
abbrev Group := List Record

structure RunResultRow where
  runId : RunId
  result : List Group
deriving DecidableEq, Repr

structure PermutationRow where
  dp : DpId
  run : RunId
  permutation : List ℕ
deriving DecidableEq, Repr

structure PermutationMaskRow where
  project : ProjectId
  run : RunId
  raw : List ℕ
deriving DecidableEq, Repr

/-- An object of the bucket. The project that it was written for is not stored with it, it only
says here what becomes of the project's objects. -/
structure StoredObject where
  project : ProjectId
  data : Bytes
deriving DecidableEq, Repr

structure Storage extends Server where
  /-- The column `access_token` of the projects. -/
  accessTokens : Dict ProjectId Token
  runResults : List RunResultRow
  similarityScores : List (RunId × FileName)
  permutations : List PermutationRow
  permutationMasks : List PermutationMaskRow
  objects : Dict FileName StoredObject

namespace Storage
variable (s : Storage) (projectId : ProjectId) (runId : RunId)

/-- A token that is missing is `NULL`, which is equal to no token. -/
def checkProjectAuth (resultsToken : Option Token) : Bool :=
  s.db.projects.countP (fun r => r.projectId = projectId ∧ resultsToken ≠ none ∧
    s.accessTokens.get? r.projectId = resultsToken) = 1

/-- The data provider of the project with the receipt token. -/
def selectDataproviderId (receiptToken : Option Token) : Option DpId :=
  ((s.db.providerUploads projectId).find? fun r => some r.2.token = receiptToken).map
    fun r => r.2.dp

/-- The data providers of the project that have uploaded data. -/
def getDataproviderIds : List DpId :=
  ((s.db.dataproviders.filter fun d => d.project = projectId ∧ d.uploaded = .done).map
    DataproviderRow.id).insertionSort (· ≤ ·)

def checkRunExists : Bool :=
  s.runs.entries.countP (fun r => r.2.project = projectId ∧ r.1 = runId) = 1

def getRunState : Except Error RunState := do
  let row ← orRaise (s.runs.get? runId) .typeError
  return row.state

def getResultType : Except Error ResultType := do
  let row ← orRaise (s.db.findProject projectId) .databaseError
  return row.resultType

def getRunResult : Except Error (List Group) := do
  let row ← orRaise (s.runResults.find? fun r => r.runId = runId) .databaseError
  return row.result

def getSmallerDatasetSizeForProject : Option ℤ :=
  ((s.db.providerUploads projectId).map fun r => r.2.count).min?

def getPermutationResult (dpId : DpId) : Except Error (List ℕ) := do
  let row ← orRaise (s.permutations.find? fun r => r.dp = dpId ∧ r.run = runId) .typeError
  return row.permutation

def getPermutationUnencryptedMask : Except Error (List ℕ) := do
  let row ← orRaise (s.permutationMasks.find? fun r => r.project = projectId ∧ r.run = runId)
    .typeError
  return row.raw

/-- The names of the run's score files as a column of type `CHAR(70)` returns them. -/
def similarityFiles : List FileName :=
  (s.similarityScores.filter fun r => r.1 = runId).map
    fun r => String.ofList (charPad 70 r.2.toList)

def getSimilarityScoresFilename : Except Error FileName := do
  let file ← orRaise (s.similarityFiles runId).head? .typeError
  return String.ofList (strip file.toList)

/-- The foreign key of every row of results. -/
def RunExists : Prop := runId ∈ s.runs.keys

instance : Decidable (s.RunExists runId) := inferInstanceAs (Decidable (_ ∈ _))

def insertMappingResult (mapping : List Group) : Except Error Storage := do
  ensure (s.RunExists runId) .databaseError
  return { s with runResults := s.runResults ++ [⟨runId, mapping⟩] }

def insertSimilarityScoreFile (filename : FileName) : Except Error Storage := do
  ensure (s.RunExists runId) .databaseError
  return { s with similarityScores := s.similarityScores ++ [(runId, filename)] }

def insertPermutation (dpId : DpId) (permList : List ℕ) : Except Error Storage := do
  ensure (s.RunExists runId ∧ dpId ∈ s.db.dataproviders.map DataproviderRow.id) .databaseError
  return { s with permutations := s.permutations ++ [⟨dpId, runId, permList⟩] }

def insertPermutationMask (maskList : List ℕ) : Except Error Storage := do
  ensure (s.RunExists runId ∧ projectId ∈ s.db.projects.map ProjectRow.projectId) .databaseError
  return { s with permutationMasks := s.permutationMasks ++ [⟨projectId, runId, maskList⟩] }

end Storage
end EntityService.Service
