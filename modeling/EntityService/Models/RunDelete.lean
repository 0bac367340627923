import EntityService.Tasks.CleanupSteps
import EntityService.Views.RunDeletion

/-! The deletion of a run by a request of a client, one transaction at a time, next to the requests
and the tasks of the service. -/
namespace EntityService.Models
open Lib Service Views Tasks.ProjectCleanup

/-- How far the request has come. It keeps the name of the file of scores that it read. -/
inductive RunDeletePhase
  | received
  | exists
  | authorized
  | stateDeleted
  | found (similarityFile : Option FileName)
  | deleted (similarityFile : Option FileName)
  | answered
  | refused
  | failed
deriving DecidableEq, Repr

structure RunDelete where
  projectId : ProjectId
  runId : RunId
  authorization : Option Token
  phase : RunDeletePhase
deriving DecidableEq, Repr

inductive RunDeleteAction
  | proceed
  /-- A worker writes to the same row. The request starts again from the state in the cache. -/
  | integrityError
  | raise
deriving DecidableEq, Repr

/-- The files that `delete_minio_objects` is scheduled with, if it is. -/
def filesToDelete (similarityFile : Option FileName) : Option (List FileName) :=
  (similarityFile.filter fun file => file ≠ "").map fun file => [file]

namespace RunDelete
variable (r : RunDelete) (s : Storage)

/-- The next transaction, and the files for which `delete_minio_objects` is scheduled. -/
def proceed : Option (Storage × RunDeletePhase × Option (List FileName)) :=
  match r.phase with
  | .received =>
    some (s, if (abortIfRunDoesntExist s r.projectId r.runId).isOk then .exists else .refused, none)
  | .exists =>
    some (s, if (abortIfInvalidResultsToken s r.projectId r.authorization).isOk then .authorized
      else .refused, none)
  | .authorized =>
    some ({ s with toServer := s.setHash r.runId (Cache.setRunStateDeleted (s.hash r.runId)) },
      .stateDeleted, none)
  | .stateDeleted =>
    match s.getSimilarityFileForRun r.runId with
    | .ok similarityFile => some (s, .found similarityFile, none)
    | .error _ => some (s, .failed, none)
  | .found similarityFile =>
    -- the statement waits for the lock of the row
    if s.locked r.runId then none
    else some (s.deleteRunData r.runId, .deleted similarityFile, none)
  | .deleted similarityFile => some (s, .answered, filesToDelete similarityFile)
  | .answered | .refused | .failed => none

def step : RunDeleteAction → Option (Storage × RunDeletePhase × Option (List FileName))
  | .proceed => r.proceed s
  | .integrityError =>
    match r.phase with
    | .stateDeleted | .found _ => some (s, .authorized, none)
    | _ => none
  | .raise =>
    match r.phase with
    | .answered | .refused | .failed => none
    | _ => some (s, .failed, none)

end RunDelete

inductive RunDeleteStep (s : Storage) (r : RunDelete) :
    Storage → RunDeletePhase → Option (List FileName) → Prop
  | check {phase : RunDeletePhase} (hphase : r.phase = .received)
      (hexists : phase = .exists → (abortIfRunDoesntExist s r.projectId r.runId).isOk)
      (hnext : phase = .exists ∨ phase = .refused) : RunDeleteStep s r s phase none
  | authorize {phase : RunDeletePhase} (hphase : r.phase = .exists)
      (hnext : phase = .authorized ∨ phase = .refused) : RunDeleteStep s r s phase none
  | setState {hash : Cache.RunHash} (hphase : r.phase = .authorized) :
      RunDeleteStep s r { s with toServer := s.setHash r.runId hash } .stateDeleted none
  | find {similarityFile : Option FileName} (hphase : r.phase = .stateDeleted) :
      RunDeleteStep s r s (.found similarityFile) none
  | delete {similarityFile : Option FileName} (hphase : r.phase = .found similarityFile)
      (hlocked : s.locked r.runId = false) :
      RunDeleteStep s r (s.deleteRunData r.runId) (.deleted similarityFile) none
  | answer {similarityFile : Option FileName} (hphase : r.phase = .deleted similarityFile) :
      RunDeleteStep s r s .answered (filesToDelete similarityFile)
  | again (hphase : r.phase = .stateDeleted ∨ ∃ similarityFile, r.phase = .found similarityFile) :
      RunDeleteStep s r s .authorized none
  | fail : RunDeleteStep s r s .failed none

section Step
variable {s s' : Storage} {r : RunDelete} {a : RunDeleteAction} {phase : RunDeletePhase}
  {files : Option (List FileName)}

theorem runDeleteStep_of_proceed (h : r.proceed s = some (s', phase, files)) :
    RunDeleteStep s r s' phase files := by
  unfold RunDelete.proceed at h
  split at h
  case h_1 hphase =>
    cases h
    refine .check hphase ?_ ?_
    · intro hexists
      split_ifs at hexists with hok
      exact hok
    · split_ifs <;> simp
  case h_2 hphase =>
    cases h
    refine .authorize hphase ?_
    split_ifs <;> simp
  case h_3 hphase =>
    cases h
    exact .setState hphase
  case h_4 hphase =>
    split at h
    case h_1 =>
      cases h
      exact .find hphase
    case h_2 =>
      cases h
      exact .fail
  case h_5 hphase =>
    split_ifs at h with hlocked
    cases h
    exact .delete hphase (by simpa using hlocked)
  case h_6 hphase =>
    cases h
    exact .answer hphase
  all_goals cases h

theorem runDeleteStep_of_step (h : r.step s a = some (s', phase, files)) :
    RunDeleteStep s r s' phase files := by
  cases a with
  | proceed => exact runDeleteStep_of_proceed h
  | integrityError =>
    unfold RunDelete.step at h
    dsimp only at h
    split at h
    case h_1 hphase =>
      cases h
      exact .again (.inl hphase)
    case h_2 file hphase =>
      cases h
      exact .again (.inr ⟨file, hphase⟩)
    case h_3 => cases h
  | raise =>
    unfold RunDelete.step at h
    dsimp only at h
    split at h
    case h_4 =>
      cases h
      exact .fail
    all_goals cases h

/-- The request writes to the cache and to the tables of the runs and of their results only. -/
theorem RunDeleteStep.same (h : RunDeleteStep s r s' phase files) :
    s'.db = s.db ∧ s'.accessTokens = s.accessTokens := by
  cases h <;> exact ⟨rfl, rfl⟩

end Step

theorem runOf_of_isOk {s : Storage} {projectId : ProjectId} {runId : RunId}
    (h : (abortIfRunDoesntExist s projectId runId).isOk) : s.RunOf projectId runId := by
  unfold abortIfRunDoesntExist ensure at h
  split_ifs at h with hcheck
  · exact checkRunExists_iff.mp hcheck
  · cases h

/-- A request that nothing comes between does what the view does. -/
theorem proceeds_of_runDelete {s s' : Storage} {projectId : ProjectId} {runId : RunId}
    {authorization : Option Token} {job : Option (List FileName)}
    (h : runDelete projectId runId authorization s = (s', .ok job))
    (hlocked : s.locked runId = false) : ∃ s₁ similarityFile,
      (⟨projectId, runId, authorization, .received⟩ : RunDelete).proceed s =
        some (s, .exists, none) ∧
      (⟨projectId, runId, authorization, .exists⟩ : RunDelete).proceed s =
        some (s, .authorized, none) ∧
      (⟨projectId, runId, authorization, .authorized⟩ : RunDelete).proceed s =
        some (s₁, .stateDeleted, none) ∧
      (⟨projectId, runId, authorization, .stateDeleted⟩ : RunDelete).proceed s₁ =
        some (s₁, .found similarityFile, none) ∧
      (⟨projectId, runId, authorization, .found similarityFile⟩ : RunDelete).proceed s₁ =
        some (s', .deleted similarityFile, none) ∧
      (⟨projectId, runId, authorization, .deleted similarityFile⟩ : RunDelete).proceed s' =
        some (s', .answered, job) := by
  unfold runDelete at h
  rw [Action.get_bind] at h
  obtain ⟨s₁, _, hauthorize, hrest⟩ := Action.bind_eq_ok.mp h
  rw [Action.lift_apply, Prod.mk.injEq] at hauthorize
  obtain ⟨rfl, hauthorized⟩ := hauthorize
  obtain ⟨_, hexists, htoken⟩ := bind_eq_ok.mp hauthorized
  obtain ⟨s₂, file, hdelete, hreturn⟩ := Action.bind_eq_ok.mp hrest
  cases hreturn
  unfold deleteRun at hdelete
  rw [Action.modify_bind, Action.get_bind] at hdelete
  obtain ⟨s₃, file', hlift, hdelete⟩ := Action.bind_eq_ok.mp hdelete
  rw [Action.lift_apply, Prod.mk.injEq] at hlift
  obtain ⟨rfl, hfile⟩ := hlift
  rw [Action.modify_bind, Action.pure_apply, Prod.mk.injEq] at hdelete
  obtain ⟨rfl, hsame⟩ := hdelete
  obtain rfl := Except.ok.inj hsame
  refine ⟨_, file', ?_, ?_, rfl, ?_, ?_, rfl⟩
  · rw [RunDelete.proceed, hexists]
    rfl
  · rw [RunDelete.proceed, htoken]
    rfl
  · rw [RunDelete.proceed]
    dsimp only
    rw [hfile]
  · rw [RunDelete.proceed]
    dsimp only
    rw [if_neg]
    show ¬ s.locked runId = true
    rw [hlocked]
    exact Bool.false_ne_true

/-- A request or a task of the service, or the deletion of a run. -/
inductive DeployedProcess
  | system (t : SystemProcess)
  | runDelete (r : RunDelete)
deriving DecidableEq

inductive DeployedAction
  | system (a : SystemAction)
  | runDelete (a : RunDeleteAction)

def deployed (settings : Settings) : Program Storage DeployedProcess DeployedAction
  | s, .system t, .system a => do
    let (s, t, started) ← Tasks.ProjectCleanup.system settings s t a
    return (s, .system t, started.map DeployedProcess.system)
  | s, .runDelete r, .runDelete a => do
    let (s, phase, files) ← r.step s a
    return (s, .runDelete { r with phase := phase },
      (files.map fun files => .system (.deleteMinioObjects r.projectId files false)).toList)
  | _, _, _ => none

inductive DeployedStep (settings : Settings) (s : Storage) :
    DeployedProcess → Storage → DeployedProcess → List DeployedProcess → Prop
  | system {t t' : SystemProcess} {a : SystemAction} {s' : Storage} {started : List SystemProcess}
      (h : Tasks.ProjectCleanup.system settings s t a = some (s', t', started)) :
      DeployedStep settings s (.system t) s' (.system t') (started.map DeployedProcess.system)
  | runDelete {r : RunDelete} {s' : Storage} {phase : RunDeletePhase}
      {files : Option (List FileName)} (h : RunDeleteStep s r s' phase files) :
      DeployedStep settings s (.runDelete r) s' (.runDelete { r with phase := phase })
        (files.map fun files => .system (.deleteMinioObjects r.projectId files false)).toList

theorem deployedStep_of_step {settings : Settings} {s s' : Storage} {t t' : DeployedProcess}
    {a : DeployedAction} {started : List DeployedProcess}
    (h : deployed settings s t a = some (s', t', started)) :
    DeployedStep settings s t s' t' started := by
  unfold deployed at h
  split at h
  case h_1 t a =>
    simp only [Option.bind_eq_bind, Option.bind_eq_some_iff, Option.pure_def] at h
    obtain ⟨⟨s₁, t₁, started₁⟩, hstep, h⟩ := h
    cases h
    exact .system hstep
  case h_2 r a =>
    simp only [Option.bind_eq_bind, Option.bind_eq_some_iff, Option.pure_def] at h
    obtain ⟨⟨s₁, phase, files⟩, hstep, h⟩ := h
    cases h
    exact .runDelete (runDeleteStep_of_step hstep)
  case h_3 => cases h

end EntityService.Models
