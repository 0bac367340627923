import EntityService.Service.Deletion
import EntityService.Service.Readiness
import EntityService.Tasks.Permutation
import EntityService.Views.Results

/-! The deletion of projects among the other requests and tasks, one statement of `remove_project`
at a time. The service stores the rows of uploads and of results here too. -/
namespace EntityService.Tasks.ProjectCleanup
open Lib Service Views

inductive DeletePhase
  | received | exists | authorized | marked | accepted | refused
deriving DecidableEq, Repr

structure DeleteRequest where
  projectId : ProjectId
  authorization : Option Token
  phase : DeletePhase
deriving DecidableEq, Repr

/-- How far `remove_project` has come. Its transaction is open until it is `committed`. -/
inductive RemovePhase
  | pending
  | settingStates (todo : List RunId)
  | gathered
  | resultsDeleted
  | permutationsDeleted
  | masksDeleted
  | committed
  | objectsGathered (files : List FileName)
  | ended
  | failed
deriving DecidableEq, Repr

structure RemoveProject where
  projectId : ProjectId
  deleted : Deleted
  phase : RemovePhase
deriving DecidableEq, Repr

inductive SystemProcess
  | service (t : Process)
  | projectDelete (r : DeleteRequest)
  | removeProject (t : RemoveProject)
  | deleteMinioObjects (projectId : ProjectId) (filenames : List FileName) (ended : Bool)
deriving DecidableEq, Repr

/-- What a step writes, where it is not determined by what the model keeps. -/
structure Written where
  blocks : List BlockRow
  encodings : List EncodingRow
  encodingblocks : List EncodingBlockRow
  filename : FileName
  scores : Bytes
  groups : List Group
  lenFilters1 : ℕ
  lenFilters2 : ℕ
  shuffles : Permutation.Shuffles

structure SystemAction where
  action : Action
  written : Written

namespace DeleteRequest
variable (r : DeleteRequest) (s : Storage)

/-- The next transaction, and whether `remove_project` is scheduled. -/
def step : Action → Option (Storage × DeletePhase × Bool)
  | .proceed =>
    match r.phase with
    | .received =>
      some (s, if (abortIfProjectDoesntExist s.db r.projectId).isOk then .exists else .refused,
        false)
    | .exists =>
      some (s, if (abortIfInvalidResultsToken s r.projectId r.authorization).isOk then .authorized
        else .refused, false)
    | .authorized => some (s.markProjectDeleted r.projectId, .marked, false)
    | .marked => some (s, .accepted, true)
    | .accepted => none
    | .refused => none
  | .raise =>
    if r.phase = .accepted ∨ r.phase = .refused then none else some (s, .refused, false)
  | _ => none

end DeleteRequest

namespace RemoveProject
variable (t : RemoveProject) (s : Storage)

/-- The next statement of the task. -/
def proceed : Option (Storage × RemoveProject × List SystemProcess) :=
  match t.phase with
  | .pending =>
    some (s, { t with phase := .settingStates (s.findRuns t.projectId fun _ => true) }, [])
  | .settingStates (runId :: todo) =>
    some ({ s with toServer := s.setHash runId (Cache.setRunStateDeleted (s.hash runId)) },
      { t with phase := .settingStates todo }, [])
  | .settingStates [] =>
    some (s, { t with
      deleted := { t.deleted with dpIds := s.getDataproviderIds t.projectId }
      phase := .gathered }, [])
  | .gathered =>
    some (s, { t with
      deleted := { t.deleted with runResults := s.runResultsOf t.projectId }
      phase := .resultsDeleted }, [])
  | .resultsDeleted =>
    some (s, { t with
      deleted := { t.deleted with permutations := s.permutationsOf t.projectId }
      phase := .permutationsDeleted }, [])
  | .permutationsDeleted =>
    some (s, { t with
      deleted := { t.deleted with permutationMasks := s.permutationMasksOf t.projectId }
      phase := .masksDeleted }, [])
  | .masksDeleted => some (s.commitDeleted t.deleted, { t with phase := .committed }, [])
  | .committed =>
    (committed (s.getAllObjectsForProject t.projectId)).map fun files =>
      (s, { t with phase := .objectsGathered files }, [])
  | .objectsGathered files =>
    some (s, { t with phase := .ended }, [.deleteMinioObjects t.projectId files false])
  | .ended => none
  | .failed => none

/-- An exception rolls back what has not been committed. -/
def step : Action → Option (Storage × RemoveProject × List SystemProcess)
  | .proceed => t.proceed s
  | .raise =>
    if t.phase = .ended ∨ t.phase = .failed then none else some (s, { t with phase := .failed }, [])
  | _ => none

end RemoveProject

structure UploadRows where
  dpId : DpId
  blocks : List BlockRow
  encodings : List EncodingRow
  encodingblocks : List EncodingBlockRow

/-- The rows of the next transaction of a process. Only the request that commits its own metadata
inserts the blocks before the encodings are read. -/
def uploadRows (w : Written) : Process → Option UploadRows
  | .request r =>
    match r.phase, r.route with
    | .locked, .json => some ⟨r.upload.dpId, w.blocks, [], []⟩
    | .inserted, .octetStream => some ⟨r.upload.dpId, w.blocks, w.encodings, w.encodingblocks⟩
    | .inserted, .binaryclks => some ⟨r.upload.dpId, w.blocks, w.encodings, w.encodingblocks⟩
    | _, _ => none
  | .uploadTask t =>
    match t.phase with
    | .handleRawUpload => some ⟨t.upload.dpId, [], w.encodings, w.encodingblocks⟩
    | .pullExternalData true => some ⟨t.upload.dpId, w.blocks, w.encodings, w.encodingblocks⟩
    | .metadataInserted => some ⟨t.upload.dpId, w.blocks, w.encodings, w.encodingblocks⟩
    | _ => none
  | _ => none

/-- The foreign key of every row of an upload. -/
def ProviderExists (s : Server) (dpId : DpId) : Prop :=
  dpId ∈ s.db.dataproviders.map DataproviderRow.id

instance (s : Server) (dpId : DpId) : Decidable (ProviderExists s dpId) :=
  inferInstanceAs (Decidable (_ ∈ _))

def insertUploadRows (s : Storage) (rows : UploadRows) : Except Error Storage := do
  ensure (rows.blocks = [] ∧ rows.encodings = [] ∧ rows.encodingblocks = [] ∨
    ProviderExists s.toServer rows.dpId) .databaseError
  let db := { s.db with
    blocks := s.db.blocks ++ rows.blocks.map fun r => { r with dp := rows.dpId }
    encodings := s.db.encodings ++ rows.encodings.map fun r => { r with dp := rows.dpId }
    encodingblocks :=
      s.db.encodingblocks ++ rows.encodingblocks.map fun r => { r with dp := rows.dpId } }
  return { s with db := db }

/-- What the next transaction of a process stores. The tasks of a run keep the id of the project
that the run belongs to. -/
def store (w : Written) (s : Storage) : Process → Except Error Storage
  | .runTask (.aggregateComparisons projectId runId true .pending) =>
    { s with objects := s.objects.set w.filename ⟨projectId, w.scores⟩
      : Storage }.insertSimilarityScoreFile runId w.filename
  | .runTask (.saveAndPermute _ runId .pending) => s.insertMappingResult runId w.groups
  | .runTask (.permuteMappingData runId .pending) => do
    let row ← orRaise (s.runs.get? runId) .typeError
    match Permutation.permuteMappingData w.shuffles row.project runId w.lenFilters1 w.lenFilters2
      s with
    | (s, .ok _) => .ok s
    | (_, .error e) => .error e
  | t =>
    match uploadRows w t with
    | some rows => insertUploadRows s rows
    | none => .ok s

/-- A step of the service with what it stores. An upload is refused without its provider. -/
def serviceStep (settings : Settings) (s : Storage) (t : Process) (a : SystemAction) :
    Option (Storage × Process × List Process) := do
  let (server, t', started) ← service settings s.toServer t a.action
  if (insertsFor s.toServer t a.action).all fun dpId => ProviderExists s.toServer dpId then
    let s := { s with toServer := server }
    let s ← if a.action = .proceed then committed (store a.written s t) else some s
    return (s, t', started)
  else none

def system (settings : Settings) : Program Storage SystemProcess SystemAction := fun s t a =>
  match t with
  | .service t => do
    let (s, t, started) ← serviceStep settings s t a
    return (s, .service t, started.map SystemProcess.service)
  | .projectDelete r => do
    let (s, phase, removes) ← r.step s a.action
    return (s, .projectDelete { r with phase := phase },
      if removes then [.removeProject ⟨r.projectId, ⟨[], [], [], []⟩, .pending⟩] else [])
  | .removeProject t => do
    let (s, t, started) ← t.step s a.action
    return (s, .removeProject t, started)
  | .deleteMinioObjects projectId filenames false =>
    match a.action with
    | .proceed =>
      some (s.deleteMinioObjects filenames, .deleteMinioObjects projectId filenames true, [])
    | .raise => some (s, .deleteMinioObjects projectId filenames true, [])
    | _ => none
  | .deleteMinioObjects _ _ true => none

def unshuffled : Permutation.Shuffle := ⟨id, List.Perm.refl⟩

def nothingWritten : Written :=
  ⟨[], [], [], "", [], [], 0, 0, ⟨unshuffled, unshuffled, unshuffled⟩⟩

/-- Steps of the processes at the given indices. -/
def proceedAll (is : List ℕ) : List (ℕ × SystemAction) :=
  is.map fun i => (i, ⟨.proceed, nothingWritten⟩)

end EntityService.Tasks.ProjectCleanup
