import EntityService.Database.Tables

/-! The queries of the database. -/
namespace EntityService.Database
open Lib

/-- Yield block name, block id and count for a data provider. -/
def getBlockMetadata (db : Database) (dpId : DpId) : List (BlockName × BlockId × ℤ) :=
  (db.blocks.filter (fun r => r.dp = dpId)).map
    (fun r => (strip (charPad 64 r.blockName), r.blockId, r.count))

/-- The row of a project, of which `get_project_column` reads a column. -/
def findProject (db : Database) (projectId : ProjectId) : Option ProjectRow :=
  db.projects.find? (fun r => r.projectId = projectId)

def checkProjectExists (db : Database) (projectId : ProjectId) : Bool :=
  db.projects.countP (fun r => r.projectId = projectId ∧ r.markedForDeletion = false) = 1

/-- The number of encodings and of blocks of the uploaded data. -/
def getEncodingMetadata (db : Database) (dpId : DpId) : Except Error (ℤ × ℤ) := do
  let row ← orRaise (db.uploads.find? (fun r => r.dp = dpId)) .databaseError
  return (row.count, row.blockCount)

/-- The project's encoding size, or else the one its linkage schema implies. -/
def getProjectSchemaEncodingSize (db : Database) (projectId : ProjectId) : Option ℤ := do
  let row ← db.findProject projectId
  row.encodingSize <|> row.schemaLength.map (fun l => l.tdiv 8)

/-- The rows of a provider's uploads joined to the provider, for one project. -/
def providerUploads (db : Database) (projectId : ProjectId) : List (DataproviderRow × UploadRow) :=
  (db.dataproviders.filter (fun d => d.project = projectId)).flatMap fun d =>
    (db.uploads.filter (fun u => u.dp = d.id)).map fun u => (d, u)

def getNumberPartiesUploaded (db : Database) (projectId : ProjectId) : ℕ :=
  (db.providerUploads projectId).countP (fun r => r.1.uploaded = .done)

def getNumberPartiesReady (db : Database) (projectId : ProjectId) : ℕ :=
  (db.providerUploads projectId).countP (fun r => r.1.uploaded = .done ∧ r.2.state = .ready)

/-- Whether all parties of the project have contributed data. -/
def clksUploadedToProject (db : Database) (projectId : ProjectId) (checkDataReady : Bool) :
    Except Error Bool := do
  let partiesContributed :=
    if checkDataReady then db.getNumberPartiesReady projectId
    else db.getNumberPartiesUploaded projectId
  let row ← orRaise (db.findProject projectId) .databaseError
  return partiesContributed = row.parties

end EntityService.Database
