import EntityService.World

/-! The background tasks that ingest uploaded encodings. Each returns whether it schedules
a check for runs that can be executed. -/
namespace EntityService.Tasks
open Lib

/-- Save binary encodings. The upload's metadata is committed before the data. -/
def uploadClkDataBinary (settings : Settings) (dpId : DpId) (encodingIter : Generator Item)
    (receiptToken : Token) (count size : ℤ) : Task Unit := do
  transaction fun db => do
    let db ← db.insertEncodingMetadata none dpId receiptToken count 1
    db.updateEncodingMetadataSetEncodingSize dpId size
  transaction fun db => do
    let db ← db.updateEncodingMetadataSetEncodingSize dpId size
    let db ← db.insertBlockingMetadata dpId [(DEFAULT_BLOCK_ID, count)]
    let db ← storeEncodingsInDb settings db dpId encodingIter size
    return db.updateEncodingMetadata none dpId .ready

def deleteObjectStoreFiles (files : List ExternalFile) : Task Unit :=
  Action.modify fun w => { w with objects := files.foldl Dict.erase w.objects }

def getObject (file : ExternalFile) : Task ExternalObject := do
  let w ← Action.get
  Action.lift (orRaise (w.objects.get? file) .s3Error)

/-- Whether all parties of the project have contributed, so that runs can be looked for. -/
def scheduleCheck (projectId : ProjectId) (checkDataReady : Bool) : Task Bool := do
  let w ← Action.get
  Action.lift (w.db.clksUploadedToProject projectId checkDataReady)

def isJson (file : ExternalFile) : Bool := ".json".toList.isSuffixOf file.path

/-- The packed form of a numbered encoding and the names of its blocks. -/
def externalItem (binaryFormatter : BitPacking)
    (encodingToBlockMap : Dict (List Char) (List BlockName)) (encodingId : ℕ) (encoding : Bytes) :
    Except Error Item := do
  let packed ← binaryFormatter.pack encodingId encoding
  let blocks ← orRaise (encodingToBlockMap.get? (decimal encodingId)) Error.keyError
  return (encodingId, packed, blocks)

/-- The encodings of an object-store upload with blocks. The format is made when the first of
them is asked for. -/
def externalEncodings (json : Bool) (object : ExternalObject) (size count : ℤ)
    (encodingToBlockMap : Dict (List Char) (List BlockName)) : Generator Item :=
  match binaryFormat size with
  | .error e => [.error e]
  | .ok binaryFormatter =>
    if json then
      ((List.range count.toNat).zip object.clks).map fun p => do
        let encoding ← p.2
        let data ← decodeScalar encoding
        externalItem binaryFormatter encodingToBlockMap p.1 data
    else
      (List.range count.toNat).map fun encodingId =>
        externalItem binaryFormatter encodingToBlockMap encodingId
          ((object.data.drop (encodingId * size.toNat)).take size.toNat)

/-- The statements of the one transaction in which a whole upload is stored. -/
def storeExternalData (settings : Settings) (dpId : DpId) (receiptToken : Token)
    (encodings : Generator Item) (blockSizes : Dict BlockName ℕ) (size count : ℤ)
    (db : Database) : Except Error Database := do
  let db ← db.insertEncodingMetadata none dpId receiptToken count blockSizes.keys.length
  let db ← db.updateEncodingMetadataSetEncodingSize dpId size
  let db ← db.insertBlockingMetadata dpId (blockSizes.entries.map fun b => (b.1, (b.2 : ℤ)))
  let db ← storeEncodingsInDb settings db dpId encodings size
  let db := db.updateEncodingMetadata none dpId .ready
  db.updateBlocksState dpId blockSizes.keys .ready

/-- Load encodings and blocking data from the object store. The exception handler around the
storing step writes in the transaction that its own exception rolls back, so it is left out. -/
def pullExternalData (settings : Settings) (projectId : ProjectId) (dpId : DpId)
    (encodingFile blocksFile : ExternalFile) (receiptToken : Token) : Task Bool := do
  let w ← Action.get
  if w.db.checkProjectExists projectId then
    let blocksObject ← getObject blocksFile
    let pairs ← Action.lift (blocksObject.blocks.mapM id)
    let hashed := pairs.map fun p => (p.1, p.2.map (hashBlockName settings.blake2b))
    let encodingToBlockMap := Dict.ofList hashed
    let blockSizes := Dict.tally (hashed.flatMap Prod.snd)
    let object ← getObject encodingFile
    let count ← Action.lift object.hashCount
    let size ← Action.lift object.hashSize
    Action.lift (ensure (count = encodingToBlockMap.keys.length) .assertionError)
    transaction (storeExternalData settings dpId receiptToken
      (externalEncodings (isJson encodingFile) object size count encodingToBlockMap)
      blockSizes size count)
    deleteObjectStoreFiles [encodingFile, blocksFile]
    scheduleCheck projectId false
  else
    deleteObjectStoreFiles [encodingFile, blocksFile]
    return false

def pullExternalDataEncodingsOnly (settings : Settings) (projectId : ProjectId) (dpId : DpId)
    (file : ExternalFile) (receiptToken : Token) : Task Bool := do
  let w ← Action.get
  if w.db.checkProjectExists projectId then
    let object ← getObject file
    let count ← Action.lift object.hashCount
    let size ← Action.lift object.hashSize
    let convertedStream ← Action.lift
      (if isJson file then includeEncodingIdInJsonStream object.clks size count
      else includeEncodingIdInBinaryStream object.data size count)
    uploadClkDataBinary settings dpId convertedStream receiptToken count size
    deleteObjectStoreFiles [file]
    scheduleCheck projectId false
  else
    deleteObjectStoreFiles [file]
    return false

/-- Whether an `InvalidEncodingError` is raised for the size. -/
def checkDataprovidersEncoding (settings : Settings) (db : Database) (projectId : ProjectId)
    (encodingSize : ℤ) : Bool :=
  (settings.minEncodingSize ≤ encodingSize ∧ encodingSize ≤ settings.maxEncodingSize) ∧
    db.getProjectSchemaEncodingSize projectId ∈ [none, some encodingSize]

def handleInvalidEncodingData (dpId : DpId) : Task Unit :=
  transaction fun db => do
    let _ ← orRaise (db.uploads.find? (fun r => r.dp = dpId)) .databaseError
    return db.updateEncodingMetadata (some "DELETED") dpId .error

/-- Copy base64 encodings that were uploaded as JSON into the database. -/
def handleRawUpload (settings : Settings) (projectId : ProjectId) (dpId : DpId)
    (receiptToken : Token) : Task Bool := do
  let w ← Action.get
  if w.db.checkProjectExists projectId then
    let _ ← Action.lift (w.db.getEncodingMetadata dpId)
    let rawData ← Action.lift
      (orRaise (w.quarantine.get? (RAW_FILENAME_FMT receiptToken)) .s3Error)
    let (encodingSize, pipeline) ← Action.lift
      (convertEncodingsFromBase64ToBinary (streamJsonClksnblocks settings.blake2b rawData))
    transaction fun db => storeEncodingsInDb settings db dpId pipeline encodingSize
    let w ← Action.get
    if !checkDataprovidersEncoding settings w.db projectId encodingSize then
      handleInvalidEncodingData dpId
    transaction fun db => do
      let db ← db.updateEncodingMetadataSetEncodingSize dpId encodingSize
      return db.updateEncodingMetadata none dpId .ready
    scheduleCheck projectId true
  else
    return false

def handleUploadError (dpId : DpId) (receiptToken : Token) : Task Unit :=
  transaction fun db => .ok (db.updateUploadState dpId receiptToken .error)

/-- Run a scheduled task. Only the tasks that read from the object store have a callback for
a failure; it records the failure and the task ends in its exception all the same. -/
def runJob (settings : Settings) (projectId : ProjectId) (dpId : DpId) (receiptToken : Token) :
    Job → Task Bool
  | .pullExternalDataEncodingsOnly object =>
    (pullExternalDataEncodingsOnly settings projectId dpId object receiptToken).handle
      fun e => do handleUploadError dpId receiptToken; Action.raise e
  | .pullExternalData encodings blocks =>
    (pullExternalData settings projectId dpId encodings blocks receiptToken).handle
      fun e => do handleUploadError dpId receiptToken; Action.raise e
  | .handleRawUpload => handleRawUpload settings projectId dpId receiptToken

end EntityService.Tasks
