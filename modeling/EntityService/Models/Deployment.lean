import EntityService.Models.Creation
import EntityService.Models.RunDelete
import EntityService.Service.Verdicts

/-! The service from its first request on. Projects are created and deleted while uploads and
runs of others are in progress, and runs are deleted, in any order. -/
namespace EntityService
open Lib Service

namespace Database

/-- The columns of the data providers that no request changes. -/
def providerColumns (db : Database) : List (DpId × Token × ProjectId) :=
  db.dataproviders.map fun d => (d.id, d.token, d.project)

/-- The columns of the projects that nothing but a deletion changes. -/
def projectColumns (db : Database) : List ProjectRow :=
  db.projects.map fun row => { row with encodingSize := none }

section Columns
variable (db : Database)

theorem providerColumns_map (dpId : DpId) (f : UploadedState → UploadedState) :
    ({ db with dataproviders := db.dataproviders.map fun d =>
        if d.id = dpId then { d with uploaded := f d.uploaded } else d } :
      Database).providerColumns = db.providerColumns := by
  unfold providerColumns
  rw [List.map_map]
  apply List.map_congr_left
  intro d _
  by_cases hd : d.id = dpId <;> simp [hd]

theorem projectColumns_setProjectEncodingSize (projectId : ProjectId) (encodingSize : ℤ) :
    (db.setProjectEncodingSize projectId encodingSize).projectColumns = db.projectColumns := by
  unfold projectColumns setProjectEncodingSize
  rw [List.map_map]
  apply List.map_congr_left
  intro row _
  by_cases hrow : row.projectId = projectId <;> simp [hrow]

theorem providerColumns_congr {db db' : Database} (h : db'.dataproviders = db.dataproviders) :
    db'.providerColumns = db.providerColumns := by
  rw [providerColumns, h]
  rfl

theorem projectColumns_congr {db db' : Database} (h : db'.projects = db.projects) :
    db'.projectColumns = db.projectColumns := by
  rw [projectColumns, h]
  rfl

end Columns
end Database

namespace Models
open Tasks.ProjectCleanup

section Columns
variable {settings : Settings} {s s' : Server} {t t' : Process} {a : Service.Action}
  {started : List Process}

theorem providerColumns_step (hstep : ServiceStep settings s t a s' t' started) :
    s'.db.providerColumns = s.db.providerColumns := by
  by_cases hrequest : ∃ r, t = .request r
  · obtain ⟨r, rfl⟩ := hrequest
    cases hstep with
    | request h =>
      cases h with
      | lock =>
        rw [Database.lock_eq]
        exact Database.providerColumns_map _ _ fun x => if Database.Free x then .inProgress else x
      | insert _ hok =>
        exact Database.providerColumns_congr
          (UploadRequest.insertOwnMetadata_ok hok).1.dataproviders
      | store _ hok =>
        exact Database.providerColumns_congr (Upload.setReady_ok hok).1.dataproviders
      | setDone => exact Database.providerColumns_map _ _ fun _ => .done
      | reset => exact Database.providerColumns_map _ _ fun _ => _
      | _ => rfl
  · push Not at hrequest
    exact Database.providerColumns_congr (dataproviders_step hstep hrequest)

theorem projectColumns_step (hstep : ServiceStep settings s t a s' t' started) :
    s'.db.projectColumns = s.db.projectColumns := by
  rcases projects_step hstep with h | ⟨c, check, held, updated, size, -, -, -, h⟩
  · exact Database.projectColumns_congr h
  · rw [h, Database.projectColumns_setProjectEncodingSize]

end Columns
/-- What a step of the service or of a deletion does to the projects and their providers. -/
inductive Effect (s : Storage) : SystemProcess → Storage → Prop
  | keep {t : SystemProcess} {s' : Storage}
      (hproviders : s'.db.providerColumns = s.db.providerColumns)
      (hprojects : s'.db.projectColumns = s.db.projectColumns)
      (htokens : s'.accessTokens = s.accessTokens) : Effect s t s'
  | mark {r : DeleteRequest} (hphase : r.phase = .authorized) :
      Effect s (.projectDelete r) (s.markProjectDeleted r.projectId)
  | delete {t : RemoveProject} : Effect s (.removeProject t) (s.commitDeleted t.deleted)

theorem effect_of_step {settings : Settings} {s s' : Storage} {t t' : SystemProcess}
    {a : Service.Action} {started : List SystemProcess}
    (hstep : SystemStep settings s t a s' t' started) : Effect s t s' := by
  cases hstep with
  | @service t t' a server s' started hstep _ hstores _ =>
    have htables := hstores.sameTables
    apply Effect.keep
    · rw [Database.providerColumns_congr htables.dataproviders]
      exact providerColumns_step hstep
    · rw [Database.projectColumns_congr htables.projects]
      exact projectColumns_step hstep
    · cases hstores with
      | upload _ hinsert =>
        obtain ⟨u, -, hinsert⟩ := bind_eq_ok.mp hinsert
        cases hinsert
        rfl
      | _ => rfl
  | projectDelete hstep =>
    cases hstep with
    | mark hphase => exact .mark hphase
    | _ => exact .keep rfl rfl rfl
  | removeProject hstep =>
    cases hstep with
    | commit => exact .delete
    | _ => exact .keep rfl rfl rfl
  | deleteObjects => exact .keep rfl rfl rfl

/-- A request that a client has sent and that has not been started. -/
def Arriving : DeployedProcess → Bool
  | .system (.service t) => t.Arriving
  | .system (.projectDelete r) => r.phase = .received
  | .runDelete r => r.phase = .received
  | _ => false

structure Created where
  document : NewProject
  response : NewProjectResponse
deriving DecidableEq, Repr

def createdBy (data : Option NewProject) (result : Except Error NewProjectResponse) :
    Option Created := do
  let document ← data
  let response ← result.toOption
  return ⟨document, response⟩

/-- The service, and the requests that have created projects. -/
structure Deployment where
  pool : Pool Storage DeployedProcess
  nextDpId : DpId
  created : List Created

namespace Deployment

def registry (d : Deployment) : Registry := { d.pool.shared with nextDpId := d.nextDpId }

def new : Deployment where
  pool := {
    shared := {
      db := {
        projects := []
        dataproviders := []
        uploads := []
        blocks := []
        encodings := []
        encodingblocks := []
        nextBlockId := 1 }
      runs := Dict.empty
      cache := Dict.empty
      accessTokens := Dict.empty
      runResults := []
      similarityScores := []
      permutations := []
      permutationMasks := []
      objects := Dict.empty }
    processes := [] }
  nextDpId := 1
  created := []

/-- A project is created, a request arrives or one of the processes takes a step. -/
inductive Step (settings : Settings) (d : Deployment) : Deployment → Prop
  | create {codes : Codes} {data : Option NewProject} {r : Registry}
      {result : Except Error NewProjectResponse}
      (h : projectsPost codes data d.registry = (r, result)) :
      Step settings d ⟨⟨r.toStorage, d.pool.processes⟩, r.nextDpId,
        d.created ++ (createdBy data result).toList⟩
  | arrive {t : DeployedProcess} (h : Arriving t) :
      Step settings d ⟨⟨d.pool.shared, d.pool.processes ++ [t]⟩, d.nextDpId, d.created⟩
  | run {i : ℕ} {a : DeployedAction} {pool : Pool Storage DeployedProcess}
      (h : d.pool.step (deployed settings) i a = some pool) :
      Step settings d ⟨pool, d.nextDpId, d.created⟩

def Reaches (settings : Settings) : Deployment → Deployment → Prop :=
  Relation.ReflTransGen (Step settings)

theorem deployedStep_of_run {settings : Settings} {d : Deployment} {i : ℕ} {a : DeployedAction}
    {pool : Pool Storage DeployedProcess} (h : d.pool.step (deployed settings) i a = some pool) :
    ∃ before t after s' t' started, d.pool = ⟨d.pool.shared, before ++ t :: after⟩ ∧
      DeployedStep settings d.pool.shared t s' t' started ∧
        pool = ⟨s', before ++ t' :: after ++ started⟩ := by
  obtain ⟨before, t, after, s', t', started, hlist, -, hprogram, hpool⟩ := Pool.step_eq_some.mp h
  have hbefore : d.pool = ⟨d.pool.shared, before ++ t :: after⟩ := by rw [← hlist]
  exact ⟨before, t, after, s', t', started, hbefore, deployedStep_of_step hprogram, hpool⟩

end Deployment

end Models
end EntityService
