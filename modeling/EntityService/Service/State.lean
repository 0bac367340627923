import EntityService.Cache
import EntityService.Database.EncodingSizes
import EntityService.Tasks.Aggregation

/-! The state that the requests and the background tasks of the service share: the database with
its runs, whose rows can be locked, and the cache. -/
namespace EntityService.Service
open Lib Cache

abbrev RunId := Tasks.Aggregation.RunId

/-- The type `runstate`. -/
inductive RunState
  | created | queued | running | completed | error
deriving DecidableEq, Repr

inductive RunType
  | default | noMapping
deriving DecidableEq, Repr

def RunType.stages : RunType → ℕ
  | .default => 3
  | .noMapping => 2

structure RunRow where
  project : ProjectId
  state : RunState
  stage : ℕ
  type : RunType
  /-- A transaction that has not been committed holds the lock of the row. -/
  locked : Bool
deriving DecidableEq, Repr

structure Server where
  db : Database
  runs : Dict RunId RunRow
  cache : Dict RunId RunHash

namespace Server
variable (s : Server) (runId : RunId)

def hash : RunHash := (s.cache.get? runId).getD ⟨none, none, none⟩

/-- Another statement on the row has to wait, or fails if it must not wait. -/
def locked : Bool := (s.runs.get? runId).any RunRow.locked

def setHash (hash : RunHash) : Server := { s with cache := s.cache.set runId hash }

/-- Change one row, if it is there. -/
def modifyRun (f : RunRow → RunRow) : Server :=
  { s with runs := s.runs.mapValues fun id row => if id = runId then f row else row }

def lockRun : Server := s.modifyRun runId fun row => { row with locked := true }

/-- An `UPDATE` of one row by a transaction that commits at once. It waits for the lock. -/
def updateRun (f : RunRow → RunRow) : Option Server :=
  if s.locked runId then none else some (s.modifyRun runId f)

/-- The run ids are unique, so a second row with one is refused. -/
def insertNewRun (projectId : ProjectId) (type : RunType) : Option Server :=
  if runId ∈ s.runs.keys then none
  else some { s with runs := s.runs.set runId ⟨projectId, .created, 1, type, false⟩ }

/-- The runs of a project that a statement finds when it starts. -/
def findRuns (projectId : ProjectId) (p : RunRow → Bool) : List RunId :=
  (s.runs.entries.filter fun r => r.2.project = projectId ∧ p r.2).map Prod.fst

/-- Release the locks of a transaction, after a change to some of its rows when it commits. -/
def release (held updated : List RunId) (f : RunRow → RunRow) : Server :=
  { s with runs := s.runs.mapValues fun id row =>
      if id ∈ held then
        { (if id ∈ updated then f row else row) with locked := false }
      else row }

end Server

def markRunning (row : RunRow) : RunRow := { row with state := .running }

def markComplete (row : RunRow) : RunRow := { row with state := .completed }

def markFailure (row : RunRow) : RunRow := { row with state := .error }

def progressStage (row : RunRow) : RunRow := { row with stage := row.stage + 1 }

def queueRun (row : RunRow) : RunRow := progressStage { row with state := .queued }

end EntityService.Service
