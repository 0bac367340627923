import EntityService.Lib.Pool
import EntityService.Service.Runs

/-! The service as a program of which the requests and the background tasks are the processes. -/
namespace EntityService.Service
open Lib

inductive Process
  | request (r : UploadRequest)
  | uploadTask (t : UploadTask)
  | post (p : Post)
  | check (c : Check)
  | runTask (t : RunTask)
deriving DecidableEq, Repr

/-- A request that a client has sent and that has not been started. -/
def Process.Arriving : Process → Bool
  | .request r => r.phase = .received
  | .post p => p.phase = .pending
  | _ => false

/-- A request that has been answered, or a task that has returned or failed. -/
def Process.Ended : Process → Bool
  | .request r => r.phase = .created ∨ r.phase = .refused
  | .uploadTask t => t.phase = .ended
  | .post p => p.phase = .ended
  | .check c => c.phase = .ended
  | .runTask t => t.hasEnded

def Schedule.process : Schedule → Process
  | .handleRawUpload upload => .uploadTask ⟨upload, .handleRawUpload⟩
  | .pullExternalData withBlocks upload => .uploadTask ⟨upload, .pullExternalData withBlocks⟩
  | .handleUploadError upload => .uploadTask ⟨upload, .handleUploadError⟩
  | .checkForExecutableRuns projectId => .check ⟨projectId, .pending⟩

def UploadRequest.step (r : UploadRequest) (db : Database) :
    Action → Option (Database × RequestPhase × List Schedule)
  | .proceed => r.proceed db
  | .raise => (r.raise false).map fun phase => (db, phase, [])
  | .problem => (r.raise true).map fun phase => (db, phase, [])
  | _ => none

def UploadTask.step (settings : Settings) (t : UploadTask) (db : Database) :
    Action → Option (Database × UploadTaskPhase × List Schedule)
  | .proceed => t.proceed settings db
  | .raise => t.raise.map fun r => (db, r)
  | _ => none

def Post.step (p : Post) (s : Server) : Action → Option (Server × TaskPhase Unit × Bool)
  | .proceed => p.proceed s
  | .raise => if p.phase = .ended then none else some (s, .ended, false)
  | _ => none

def Check.step (settings : Settings) (c : Check) (s : Server) :
    Action → Option (Server × CheckPhase × Option RunId)
  | .proceed => c.proceed settings s
  | .raise => c.raise s |>.map fun s => (s, .ended, none)
  | _ => none

def service (settings : Settings) : Program Server Process Action := fun s t a =>
  match t with
  | .request r => do
    let (db, phase, schedules) ← r.step s.db a
    return ({ s with db := db }, .request { r with phase := phase },
      schedules.map Schedule.process)
  | .uploadTask t => do
    let (db, phase, schedules) ← t.step settings s.db a
    return ({ s with db := db }, .uploadTask { t with phase := phase },
      schedules.map Schedule.process)
  | .post p => do
    let (s, phase, checks) ← p.step s a
    return (s, .post { p with phase := phase },
      if checks then [.check ⟨p.projectId, .pending⟩] else [])
  | .check c => do
    let (s, phase, newRun) ← c.step settings s a
    return (s, .check { c with phase := phase },
      (newRun.map fun runId => Process.runTask (.prerunCheck c.projectId runId .pending)).toList)
  | .runTask t => do
    let (s, t, started) ← t.step s a
    return (s, .runTask t, started.map Process.runTask)

end EntityService.Service
