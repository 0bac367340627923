import EntityService.Database.EncodingSizes

/-! The requests that upload encodings and the tasks they schedule, one transaction at a time.
The tables of the encodings and of their blocks, which no step here reads, are left out. -/
namespace EntityService.Service
open Lib

/-- What a transaction commits. One that raises an exception does not proceed. -/
def committed {α : Type} : Except Error α → Option α := Except.toOption

/-- How the encodings of an upload reach the service: in a request to `/clks` or in one to
`/binaryclks`. -/
inductive Route
  | json | objectStore | objectStoreAndBlocks | octetStream | binaryclks
deriving DecidableEq, Repr

structure Upload where
  projectId : ProjectId
  dpId : DpId
  receiptToken : Token
  count : ℤ
  blockCount : ℤ
  size : ℤ
deriving DecidableEq, Repr

namespace Upload
variable (u : Upload) (db : Database)

def insertMetadata (file : Option FileName) (blockCount : ℤ) : Except Error Database :=
  db.insertEncodingMetadata file u.dpId u.receiptToken u.count blockCount

def insertSizedMetadata : Except Error Database := do
  let db ← u.insertMetadata db none 1
  db.updateEncodingMetadataSetEncodingSize u.dpId u.size

/-- Commit the encoding size together with the state `ready`. -/
def setReady : Except Error Database := do
  let db ← db.updateEncodingMetadataSetEncodingSize u.dpId u.size
  return db.updateEncodingMetadata none u.dpId .ready

def insertReady : Except Error Database := do
  let db ← u.insertMetadata db none u.blockCount
  u.setReady db

end Upload

/-- What an upload leaves to do for the rest of the service. -/
inductive Schedule
  | handleRawUpload (upload : Upload)
  | pullExternalData (withBlocks : Bool) (upload : Upload)
  | handleUploadError (upload : Upload)
  | checkForExecutableRuns (projectId : ProjectId)
deriving DecidableEq, Repr

/-- How far a request has come. It is `accepted` once it has left the block in which an exception
makes the provider free again. -/
inductive RequestPhase
  | received
  | locked
  | inserted
  | handedOver
  | raised (problem : Bool)
  | accepted
  | done
  | allUploaded
  | created
  | refused
deriving DecidableEq, Repr

structure UploadRequest where
  upload : Upload
  route : Route
  phase : RequestPhase
deriving DecidableEq, Repr

namespace UploadRequest
variable (r : UploadRequest) (db : Database)

/-- The metadata that a request commits itself, if it reads the encodings. -/
def insertOwnMetadata : Except Error Database :=
  match r.route with
  | .json => r.upload.insertMetadata db (some (RAW_FILENAME_FMT r.upload.receiptToken))
      r.upload.blockCount
  | _ => r.upload.insertSizedMetadata db

/-- The state that an exception leaves. Only `/clks` treats a `ProblemException` differently. -/
def resetState (problem : Bool) : UploadedState :=
  match r.route, problem with
  | .binaryclks, _ => .error
  | _, true => .notStarted
  | _, false => .error

/-- The next transaction of a request, or the next task that it schedules. -/
def proceed : Option (Database × RequestPhase × List Schedule) :=
  match r.phase with
  | .received =>
    let (uploadStateUpdated, db') := db.isDataproviderAllowedToUploadAndLock r.upload.dpId
    if uploadStateUpdated then some (db', .locked, []) else some (db, .refused, [])
  | .locked =>
    match r.route with
    | .objectStore => some (db, .handedOver, [.pullExternalData false r.upload])
    | .objectStoreAndBlocks => some (db, .handedOver, [.pullExternalData true r.upload])
    | _ => (committed (r.insertOwnMetadata db)).map fun db' => (db', .inserted, [])
  | .inserted =>
    match r.route with
    | .json => some (db, .handedOver, [.handleRawUpload r.upload])
    | _ => (committed (r.upload.setReady db)).map fun db' => (db', .handedOver, [])
  | .handedOver => some (db, .accepted, [])
  | .accepted => some (db.setDataproviderUploadState r.upload.dpId .done, .done, [])
  | .done =>
    (committed (db.clksUploadedToProject r.upload.projectId false)).map fun uploaded =>
      (db, if uploaded then .allUploaded else .created, [])
  | .allUploaded =>
    some (db, .created, [.checkForExecutableRuns r.upload.projectId])
  | .raised problem =>
    some (db.setDataproviderUploadState r.upload.dpId (r.resetState problem), .refused, [])
  | .created => none
  | .refused => none

/-- An exception instead of the next transaction. -/
def raise (problem : Bool) : Option RequestPhase :=
  match r.phase with
  | .locked | .inserted | .handedOver => some (.raised problem)
  | .created | .refused => none
  | _ => some .refused

end UploadRequest

/-- How far a task has come that an upload schedules. -/
inductive UploadTaskPhase
  | handleRawUpload
  | encodingsStored
  | invalidSize
  | sizeChecked
  | rawReady
  | allReady
  | pullExternalData (withBlocks : Bool)
  | metadataInserted
  | pulled
  | allUploaded
  | handleUploadError
  | ended
deriving DecidableEq, Repr

structure UploadTask where
  upload : Upload
  phase : UploadTaskPhase
deriving DecidableEq, Repr

namespace UploadTask
variable (settings : Settings) (t : UploadTask) (db : Database)

/-- The error callback of the tasks that read from the object store. -/
def errorCallback : List Schedule :=
  match t.phase with
  | .pullExternalData _ | .metadataInserted | .pulled | .allUploaded =>
    [.handleUploadError t.upload]
  | _ => []

def proceed : Option (Database × UploadTaskPhase × List Schedule) :=
  match t.phase with
  | .handleRawUpload => some (db, .encodingsStored, [])
  | .encodingsStored =>
    if Tasks.checkDataprovidersEncoding settings db t.upload.projectId t.upload.size then
      some (db, .sizeChecked, [])
    else some (db, .invalidSize, [])
  | .invalidSize =>
    (committed (db.invalidateUpload t.upload.dpId)).map fun db' => (db', .sizeChecked, [])
  | .sizeChecked => (committed (t.upload.setReady db)).map fun db' => (db', .rawReady, [])
  | .rawReady =>
    (committed (db.clksUploadedToProject t.upload.projectId true)).map fun ready =>
      (db, if ready then .allReady else .ended, [])
  | .allReady => some (db, .ended, [.checkForExecutableRuns t.upload.projectId])
  | .pullExternalData true =>
    (committed (t.upload.insertReady db)).map fun db' => (db', .pulled, [])
  | .pullExternalData false =>
    (committed (t.upload.insertSizedMetadata db)).map fun db' => (db', .metadataInserted, [])
  | .metadataInserted => (committed (t.upload.setReady db)).map fun db' => (db', .pulled, [])
  | .pulled =>
    (committed (db.clksUploadedToProject t.upload.projectId false)).map fun uploaded =>
      (db, if uploaded then .allUploaded else .ended, [])
  | .allUploaded => some (db, .ended, [.checkForExecutableRuns t.upload.projectId])
  | .handleUploadError =>
    some (db.updateUploadState t.upload.dpId t.upload.receiptToken .error, .ended, [])
  | .ended => none

/-- The exception handler of `pull_external_data` writes in the transaction that its own
exception rolls back, so that an exception changes nothing. -/
def raise : Option (UploadTaskPhase × List Schedule) :=
  match t.phase with
  | .ended => none
  | _ => some (.ended, t.errorCallback)

end UploadTask
end EntityService.Service
