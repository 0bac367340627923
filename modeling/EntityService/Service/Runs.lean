import EntityService.Service.State
import EntityService.Service.Uploads

/-! The requests for runs and the tasks of the runs, one transaction at a time. A transaction that
locks rows one by one, or writes to the cache while it holds a lock, takes several steps. -/
namespace EntityService.Service
open Lib Cache

/-- How far `check_for_executable_runs` has come. Its last transaction updates the rows in `todo`
one by one and keeps the locks of the rows in `held`. -/
inductive CheckPhase
  | pending
  | ready
  | sized (check : SizeCheck) (invalid : List DpId)
  | updating (check : SizeCheck) (todo held updated : List RunId)
  | committed (newRuns : List RunId)
  | ended
deriving DecidableEq, Repr

structure Check where
  projectId : ProjectId
  phase : CheckPhase
deriving DecidableEq, Repr

namespace Check
variable (settings : Settings) (c : Check) (s : Server)

/-- The condition of the statement that marks all runs as failed, or queues the new ones. -/
def wanted (check : SizeCheck) (row : RunRow) : Bool := check.raises ∨ row.state = .created

def change (check : SizeCheck) : RunRow → RunRow :=
  if check.raises then markFailure else queueRun

/-- The run ids for which `prerun_check` is scheduled once the transaction is committed. -/
def newRuns (check : SizeCheck) (updated : List RunId) : List RunId :=
  if check.raises then [] else updated

def commit (check : SizeCheck) (held updated : List RunId) : Server :=
  let s := s.release held updated (change check)
  match check.setSize with
  | some size => { s with db := s.db.setProjectEncodingSize c.projectId size }
  | none => s

/-- The next step, with the run for which it schedules `prerun_check`. -/
def proceed : Option (Server × CheckPhase × Option RunId) :=
  match c.phase with
  | .pending =>
    (committed (s.db.clksUploadedToProject c.projectId true)).map fun ready =>
      (s, if ready then .ready else .ended, none)
  | .ready =>
    (committed (checkProjectEncodingSize settings s.db c.projectId)).map fun check =>
      (s, .sized check check.invalid, none)
  | .sized check (dpId :: invalid) =>
    (committed (s.db.invalidateUpload dpId)).map fun db =>
      ({ s with db := db }, .sized check invalid, none)
  | .sized check [] =>
    some (s, .updating check (s.findRuns c.projectId (wanted check)) [] [], none)
  | .updating check (runId :: todo) held updated =>
    match s.runs.get? runId with
    | none => some (s, .updating check todo held updated, none)
    | some row =>
      if row.locked then none
      else
        -- the condition is evaluated again once the row is locked
        some (s.lockRun runId, .updating check todo (runId :: held)
          (if wanted check row then runId :: updated else updated), none)
  | .updating check [] held updated =>
    some (c.commit s check held updated, .committed (newRuns check updated), none)
  | .committed (runId :: newRuns) => some (s, .committed newRuns, some runId)
  | .committed [] => some (s, .ended, none)
  | .ended => none

/-- An exception, which rolls back the transaction. -/
def raise : Option Server :=
  match c.phase with
  | .updating _ _ held _ => some (s.release held [] id)
  | .ended => none
  | _ => some s

end Check

inductive PrerunPhase
  | pending
  | missing
  | locked
  | activated
  | started
  | ended
deriving DecidableEq, Repr

/-- How far a task has come whose work is one transaction. It keeps what it read. -/
inductive TaskPhase (α : Type)
  | pending
  | committed (value : α)
  | ended
deriving DecidableEq, Repr

/-- How far a task of the header of a chord has come, and whether it returned a result. -/
inductive HeaderPhase
  | pending
  | celeryBugFix
  | active
  | overLimit
  | returned (result : Bool)
  | failed
deriving DecidableEq, Repr

inductive RunTask
  | prerunCheck (projectId : ProjectId) (runId : RunId) (phase : PrerunPhase)
  | createComparisonJobs (projectId : ProjectId) (runId : RunId) (phase : TaskPhase Unit)
  /-- The tasks `compute_filter_similarity` in the header of a chord. -/
  | chord (projectId : ProjectId) (runId : RunId) (headers : List HeaderPhase)
  | aggregateComparisons (projectId : ProjectId) (runId : RunId) (complete : Bool)
      (phase : TaskPhase ResultType)
  | solverTask (projectId : ProjectId) (runId : RunId) (phase : TaskPhase Unit)
  | saveAndPermute (projectId : ProjectId) (runId : RunId) (phase : TaskPhase ResultType)
  | permuteMappingData (runId : RunId) (phase : TaskPhase Unit)
  | markRunComplete (runId : RunId) (phase : TaskPhase Unit)
  /-- An error callback, with the run id only if its signature binds one. -/
  | runFailedHandler (runId : Option RunId) (phase : TaskPhase Unit)
deriving DecidableEq, Repr

inductive HeaderAction
  | start
  | result
  /-- The encodings cannot be compared. -/
  | notImplemented
  | overLimit
  | markFailure
  | fail
deriving DecidableEq, Repr

/-- What a process does next. -/
inductive Action
  | proceed
  | raise
  /-- Raise a `ProblemException`. -/
  | problem
  /-- Schedule a chord with a number of work packages. -/
  | schedule (packages : ℕ)
  | header (i : ℕ) (action : HeaderAction)
  /-- Find more candidate pairs than can be solved. -/
  | overLimit
deriving DecidableEq, Repr

namespace HeaderPhase

def hasReturned : HeaderPhase → Bool
  | .returned _ => true
  | _ => false

/-- A step of a task of a header. Every exception but an `InactiveRun` is retried until the task
fails. -/
def step (s : Server) (runId : RunId) : HeaderPhase → HeaderAction →
    Option (Server × HeaderPhase)
  | .pending, .start =>
    some (s, if (s.hash runId).state = some .active then .active else .returned false)
  | .celeryBugFix, .result => some (s, .returned true)
  | .active, .result => some (s, .returned true)
  | .active, .notImplemented => some (s, .returned false)
  | .active, .overLimit => some (s, .overLimit)
  | .overLimit, .markFailure => do
    let s ← s.updateRun runId markFailure
    return (s, .returned false)
  | .pending, .fail => some (s, .failed)
  | .active, .fail => some (s, .failed)
  | .overLimit, .fail => some (s, .failed)
  | _, _ => none

end HeaderPhase

/-- A chord with a single task would not report its errors, so a second one is added. -/
def scoringTasks (packages : ℕ) : List HeaderPhase :=
  if packages = 1 then [.pending, .celeryBugFix] else List.replicate packages .pending

/-- What a chord schedules after a step of one of its tasks: the error callback of its body when
the task has failed, and the body when it was the last task to return. -/
def chordSchedules (projectId : ProjectId) (runId : RunId) (phase : HeaderPhase)
    (headers : List HeaderPhase) : List RunTask :=
  if phase = .failed then [.runFailedHandler (some runId) .pending]
  else if headers.all HeaderPhase.hasReturned then
    [.aggregateComparisons projectId runId (headers.all fun h => h = .returned true) .pending]
  else []

namespace RunTask

/-- The task after it has ended. The tasks of a chord end one by one. -/
def ended : RunTask → RunTask
  | .prerunCheck projectId runId _ => .prerunCheck projectId runId .ended
  | .createComparisonJobs projectId runId _ => .createComparisonJobs projectId runId .ended
  | .chord projectId runId headers => .chord projectId runId headers
  | .aggregateComparisons projectId runId complete _ =>
    .aggregateComparisons projectId runId complete .ended
  | .solverTask projectId runId _ => .solverTask projectId runId .ended
  | .saveAndPermute projectId runId _ => .saveAndPermute projectId runId .ended
  | .permuteMappingData runId _ => .permuteMappingData runId .ended
  | .markRunComplete runId _ => .markRunComplete runId .ended
  | .runFailedHandler runId _ => .runFailedHandler runId .ended

def hasEnded : RunTask → Bool
  | .chord _ _ headers => headers.all fun h => h.hasReturned ∨ h = .failed
  | t => t = t.ended

/-- The next transaction of a task, or the next task that it schedules. -/
def proceed (s : Server) : RunTask → Option (Server × RunTask × List RunTask)
  | .prerunCheck projectId runId .pending =>
    some (s, .prerunCheck projectId runId
      (if isRunMissing (s.hash runId) then .missing else .ended), [])
  | .prerunCheck projectId runId .missing => do
    let row ← s.runs.get? runId
    -- `FOR UPDATE NOWAIT` fails on a locked row
    if row.locked ∨ row.state ∈ [.running, .completed, .error] then
      return (s, .prerunCheck projectId runId .ended, [])
    else return (s.lockRun runId, .prerunCheck projectId runId .locked, [])
  | .prerunCheck projectId runId .locked =>
    some (s.setHash runId (setRunStateActive (s.hash runId)),
      .prerunCheck projectId runId .activated, [])
  | .prerunCheck projectId runId .activated =>
    some (s.release [runId] [runId] markRunning, .prerunCheck projectId runId .started, [])
  | .prerunCheck projectId runId .started =>
    some (s, .prerunCheck projectId runId .ended, [.createComparisonJobs projectId runId .pending])
  | .aggregateComparisons projectId runId true .pending => do
    let project ← s.db.findProject projectId
    let s ← if project.resultType = .similarityScores then some s
      else s.updateRun runId progressStage
    return (s, .aggregateComparisons projectId runId true (.committed project.resultType), [])
  | .aggregateComparisons projectId runId true (.committed resultType) =>
    some (s, .aggregateComparisons projectId runId true .ended,
      if resultType = .similarityScores then [.markRunComplete runId .pending]
      else [.solverTask projectId runId .pending])
  | .solverTask projectId runId .pending =>
    some (s, .solverTask projectId runId .ended, [.saveAndPermute projectId runId .pending])
  | .saveAndPermute projectId runId .pending => do
    let project ← s.db.findProject projectId
    return (s, .saveAndPermute projectId runId (.committed project.resultType), [])
  | .saveAndPermute projectId runId (.committed resultType) =>
    some (s, .saveAndPermute projectId runId .ended,
      if resultType = .permutations then [.permuteMappingData runId .pending]
      else [.markRunComplete runId .pending])
  | .permuteMappingData runId .pending => some (s, .permuteMappingData runId (.committed ()), [])
  | .permuteMappingData runId (.committed _) =>
    some (s, .permuteMappingData runId .ended, [.markRunComplete runId .pending])
  | .markRunComplete runId .pending => do
    let s ← s.updateRun runId markComplete
    return (s, .markRunComplete runId (.committed ()), [])
  | .markRunComplete runId (.committed _) =>
    some (s.setHash runId (setRunStateComplete (s.hash runId)), .markRunComplete runId .ended, [])
  -- without a run id the handler raises a `KeyError`
  | .runFailedHandler (some runId) .pending => do
    let s ← s.updateRun runId markFailure
    return (s, .runFailedHandler (some runId) .ended, [])
  | _ => none

/-- The error callback of a task. The one of `create_comparison_jobs` binds no run id. -/
def errorCallback : RunTask → List RunTask
  | .createComparisonJobs _ _ _ => [.runFailedHandler none .pending]
  | .aggregateComparisons _ runId _ _ => [.runFailedHandler (some runId) .pending]
  | _ => []

/-- What an exception leaves: a transaction that is under way is rolled back. -/
def rollback (s : Server) : RunTask → Server
  | .prerunCheck _ runId .locked => s.release [runId] [] id
  | .prerunCheck _ runId .activated => s.release [runId] [] id
  | _ => s

def step (s : Server) (t : RunTask) : Action → Option (Server × RunTask × List RunTask)
  | .proceed => t.proceed s
  | .raise => if t = t.ended then none else some (t.rollback s, t.ended, t.errorCallback)
  | .schedule packages =>
    match t with
    | .createComparisonJobs projectId runId .pending =>
      -- the body of a chord without tasks is scheduled at once
      some (s, .createComparisonJobs projectId runId .ended,
        if packages = 0 then [.aggregateComparisons projectId runId true .pending]
        else [.chord projectId runId (scoringTasks packages)])
    | _ => none
  | .header i action =>
    match t with
    | .chord projectId runId headers => do
      let phase ← headers[i]?
      let (s, phase) ← phase.step s runId action
      let headers := headers.set i phase
      return (s, .chord projectId runId headers, chordSchedules projectId runId phase headers)
    | _ => none
  | .overLimit =>
    match t with
    | .solverTask projectId runId .pending => do
      let s ← s.updateRun runId markFailure
      return (s, .solverTask projectId runId .ended, [])
    | _ => none
  | .problem => none

end RunTask

structure Post where
  projectId : ProjectId
  runId : RunId
  phase : TaskPhase Unit
deriving DecidableEq, Repr

namespace Post

/-- The next transaction, and whether `check_for_executable_runs` is scheduled. -/
def proceed (p : Post) (s : Server) : Option (Server × TaskPhase Unit × Bool) :=
  match p.phase with
  | .pending => do
    let project ← s.db.findProject p.projectId
    let s ← s.insertNewRun p.runId p.projectId
      (if project.resultType = .similarityScores then .noMapping else .default)
    return (s, .committed (), false)
  | .committed _ => some (s, .ended, true)
  | .ended => none

end Post
end EntityService.Service
