import EntityService.Service.Storage

/-! The statements that delete the data of a project, and the removal of its objects. Only the
providers that have uploaded data are deleted, and the rows of the project and its runs stay. -/
namespace EntityService
open Lib

namespace Database
variable (db : Database)

def markProjectDeleted (projectId : ProjectId) : Database :=
  { db with projects := db.projects.map fun r =>
      if r.projectId = projectId then { r with markedForDeletion := true } else r }

/-- Delete data providers, and with them the rows that refer to them. -/
def deleteDataproviders (dpIds : List DpId) : Database :=
  { db with
    dataproviders := db.dataproviders.filter fun r => r.id ∉ dpIds
    uploads := db.uploads.filter fun r => r.dp ∉ dpIds
    blocks := db.blocks.filter fun r => r.dp ∉ dpIds
    encodings := db.encodings.filter fun r => r.dp ∉ dpIds
    encodingblocks := db.encodingblocks.filter fun r => r.dp ∉ dpIds }

end Database

namespace Service

/-- What the transaction of `delete_project_data` has deleted. Other transactions read it until
the deletion is committed. -/
structure Deleted where
  dpIds : List DpId
  runResults : List RunResultRow
  permutations : List PermutationRow
  permutationMasks : List PermutationMaskRow
deriving DecidableEq, Repr

namespace Storage
variable (s : Storage) (projectId : ProjectId)

def markProjectDeleted : Storage := { s with db := s.db.markProjectDeleted projectId }

def setRunStatesDeleted : Storage :=
  { s with
    toServer := (s.findRuns projectId fun _ => true).foldl
      (fun s runId => s.setHash runId (Cache.setRunStateDeleted (s.hash runId))) s.toServer }

def RunOf (runId : RunId) : Prop := ∃ row, s.runs.get? runId = some row ∧ row.project = projectId

instance (runId : RunId) : Decidable (s.RunOf projectId runId) :=
  decidable_of_iff ((s.runs.get? runId).any fun row => row.project = projectId)
    (by simp [RunOf, Option.any_eq_true])

/-- The rows that the statements of `delete_project_data` delete. -/
def runResultsOf : List RunResultRow := s.runResults.filter fun r => s.RunOf projectId r.runId

def permutationsOf : List PermutationRow := s.permutations.filter fun r => s.RunOf projectId r.run

def permutationMasksOf : List PermutationMaskRow :=
  s.permutationMasks.filter fun r => r.project = projectId

/-- Commit the transaction. The rows of permutations refer to the providers too. -/
def commitDeleted (d : Deleted) : Storage :=
  { s with
    db := s.db.deleteDataproviders d.dpIds
    runResults := s.runResults.diff d.runResults
    permutations := (s.permutations.diff d.permutations).filter fun r => r.dp ∉ d.dpIds
    permutationMasks := s.permutationMasks.diff d.permutationMasks }

def deleteProjectData : Storage :=
  s.commitDeleted ⟨s.getDataproviderIds projectId, s.runResultsOf projectId,
    s.permutationsOf projectId, s.permutationMasksOf projectId⟩

/-- The file of the provider's upload as a column of type `CHAR(64)` returns it. -/
def uploadFile (dpId : DpId) : Option FileName := do
  let row ← s.db.uploads.find? fun r => r.dp = dpId
  let file ← row.file
  return String.ofList (charPad 64 file.toList)

def getProjectSimilarityFiles : List FileName :=
  (s.similarityScores.filter fun r => s.RunOf projectId r.1).map
    fun r => String.ofList (charPad 70 r.2.toList)

/-- The objects that are referred to, those of runs only if scores are the project's result. -/
def getAllObjectsForProject : Except Error (List FileName) := do
  let resultType ← s.getResultType projectId
  let files := (s.db.dataproviders.filter fun r => r.project = projectId).filterMap
    fun r => s.uploadFile r.id
  return if resultType = .similarityScores then files ++ s.getProjectSimilarityFiles projectId
    else files

def deleteMinioObjects (filenames : List FileName) : Storage :=
  { s with objects := filenames.foldl Dict.erase s.objects }

end Storage
end Service
end EntityService
