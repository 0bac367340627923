import EntityService.Database.Selections

/-! The insertions and updates of the database. A statement that violates a constraint
raises, and its transaction is rolled back by the caller. -/
namespace EntityService.Database
open Lib

/-- Insert a pending row for each block name and its count. -/
def insertBlockingMetadata (db : Database) (dpId : DpId) (blocks : List (BlockName × ℤ)) :
    Except Error Database := do
  ensure (∀ b ∈ blocks, b.1.length ≤ 64 ∧ Int4 b.2) .databaseError
  let rows := blocks.zipIdx.map fun b =>
    (⟨dpId, b.1.1, db.nextBlockId + b.2, b.1.2, .pending⟩ : BlockRow)
  return { db with blocks := db.blocks ++ rows, nextBlockId := db.nextBlockId + blocks.length }

def insertEncodingMetadata (db : Database) (clksFilename : Option FileName) (dpId : DpId)
    (receiptToken : Token) (encodingCount blockCount : ℤ) : Except Error Database := do
  ensure (receiptToken ∉ db.uploads.map UploadRow.token) .databaseError
  ensure (Int4 encodingCount ∧ Int4 blockCount) .databaseError
  let row : UploadRow :=
    ⟨dpId, receiptToken, clksFilename, .pending, none, encodingCount, blockCount⟩
  return { db with uploads := db.uploads ++ [row] }

/-- Insert an upload with the given state, or set the state of the upload that has the token. -/
def updateUploadState (db : Database) (dpId : DpId) (receiptToken : Token)
    (state : ProcessedState) : Database :=
  if receiptToken ∈ db.uploads.map UploadRow.token then
    { db with uploads := db.uploads.map fun r =>
        if r.token = receiptToken then { r with state := state } else r }
  else
    { db with uploads := db.uploads ++ [⟨dpId, receiptToken, none, state, none, 0, 0⟩] }

def computeEncodingIds (entityIds : List ℕ) (dpId : DpId) : List ℕ :=
  entityIds.map fun entityId => (dpId <<< 32) + entityId

def insertEncodings (db : Database) (rows : List EncodingRow) : Except Error Database := do
  ensure ((rows.map EncodingRow.encodingId).Nodup ∧
    (∀ r ∈ rows, r.encodingId ∉ db.encodings.map EncodingRow.encodingId)) .databaseError
  ensure (∀ r ∈ rows, r.encodingId < 2 ^ 63) .databaseError
  return { db with encodings := db.encodings ++ rows }

def insertEncodingblocks (db : Database) (rows : List EncodingBlockRow) :
    Except Error Database := do
  ensure (∀ r ∈ rows, Int4 r.entityId) .databaseError
  return { db with encodingblocks := db.encodingblocks ++ rows }

/-- The rows of `encodingblocks` for one encoding, one for each name in its list. -/
def encodingBlockRows (blockLookup : Dict BlockName BlockId) (dpId : DpId)
    (entityId encodingId : ℕ) (blockNames : List BlockName) :
    Except Error (List EncodingBlockRow) :=
  blockNames.mapM fun name => do
    let blockId ← orRaise (blockLookup.get? name) .keyError
    return ⟨dpId, entityId, encodingId, blockId⟩

/-- The block numbers that belong to the block names of a data provider. -/
def blockLookup (db : Database) (dpId : DpId) : Dict BlockName BlockId :=
  Dict.ofList ((db.getBlockMetadata dpId).map fun r => (r.1, r.2.1))

def insertEncodingsIntoBlocks (db : Database) (dpId : DpId) (blockNames : List (List BlockName))
    (entityIds : List ℕ) (encodings : List Bytes) : Except Error Database := do
  let lookup := db.blockLookup dpId
  let encodingIds := computeEncodingIds entityIds dpId
  let encodingData := (encodingIds.zip encodings).map fun p => (⟨p.1, p.2, dpId⟩ : EncodingRow)
  let db ← db.insertEncodings encodingData
  let blockData ← (entityIds.zip (encodingIds.zip blockNames)).mapM fun p =>
    encodingBlockRows lookup dpId p.1 p.2.1 p.2.2
  db.insertEncodingblocks blockData.flatten

def setDataproviderUploadState (db : Database) (dpId : DpId) (state : UploadedState) : Database :=
  { db with dataproviders := db.dataproviders.map fun r =>
      if r.id = dpId then { r with uploaded := state } else r }

def updateEncodingMetadata (db : Database) (clksFilename : Option FileName) (dpId : DpId)
    (state : ProcessedState) : Database :=
  { db with uploads := db.uploads.map fun r =>
      if r.dp = dpId then { r with state := state, file := clksFilename } else r }

/-- The names are listed after `IN`, where PostgreSQL accepts no empty list. -/
def updateBlocksState (db : Database) (dpId : DpId) (blocks : List BlockName)
    (state : ProcessedState) : Except Error Database := do
  ensure (blocks ≠ []) .databaseError
  return { db with blocks := db.blocks.map fun r =>
    if r.dp = dpId ∧ r.blockName ∈ blocks then { r with state := state } else r }

def updateEncodingMetadataSetEncodingSize (db : Database) (dpId : DpId) (encodingSize : ℤ) :
    Except Error Database := do
  ensure (Int4 encodingSize) .databaseError
  return { db with uploads := db.uploads.map fun r =>
    if r.dp = dpId then { r with encodingSize := some encodingSize } else r }

/-- Allow an upload unless one is done or in progress, and lock the provider if it is allowed. -/
def isDataproviderAllowedToUploadAndLock (db : Database) (dpId : DpId) : Bool × Database :=
  let free := fun (r : DataproviderRow) =>
    r.id = dpId ∧ r.uploaded ≠ .done ∧ r.uploaded ≠ .inProgress
  (db.dataproviders.any (fun r => free r),
    { db with dataproviders := db.dataproviders.map fun r =>
        if free r then { r with uploaded := .inProgress } else r })

end EntityService.Database
