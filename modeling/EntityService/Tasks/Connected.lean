import EntityService.Database.Connection
import EntityService.Tasks.Success

/-! The task that loads an upload with blocks, statement by statement on its connection. What its
exception handler writes is part of the transaction that the exception rolls back. -/
namespace EntityService

def Database.updateDataproviderUploadedState (db : Database) (projectId : ProjectId) (dpId : DpId)
    (state : UploadedState) : Database :=
  { db with dataproviders := db.dataproviders.map fun r =>
      if r.id = dpId ∧ r.project = projectId then { r with uploaded := state } else r }

namespace Tasks.Connected
open Lib

def insertEncodingsIntoBlocks (dpId : DpId) (blockNames : List (List BlockName))
    (entityIds : List ℕ) (encodings : List Bytes) : Statements Unit := do
  let conn ← Action.get
  let lookup := conn.db.blockLookup dpId
  let encodingIds := Database.computeEncodingIds entityIds dpId
  let encodingData := (encodingIds.zip encodings).map fun p => (⟨p.1, p.2, dpId⟩ : EncodingRow)
  execute fun db => db.insertEncodings encodingData
  let blockData ← Action.lift ((entityIds.zip (encodingIds.zip blockNames)).mapM fun p =>
    Database.encodingBlockRows lookup dpId p.1 p.2.1 p.2.2)
  execute fun db => db.insertEncodingblocks blockData.flatten

def storeGroup (dpId : DpId) (group : List (Option (Except Error Item))) : Statements Unit := do
  let group ← Action.lift (group.mapM fun item : Option (Except Error Item) =>
    item.elim (.ok none) (Except.map some))
  let (encodingIds, encodings, blocks) := transpose group
  Action.lift (ensure (blocks.length = encodings.length) .assertionError)
  Action.lift (ensure (encodingIds.length = encodings.length) .assertionError)
  insertEncodingsIntoBlocks dpId blocks encodingIds encodings

def storeEncodingsInDb (settings : Settings) (dpId : DpId) (encodings : Generator Item)
    (encodingSize : ℤ) : Statements Unit := do
  let n ← Action.lift (settings.estimateGroupSize encodingSize)
  (grouper n.toNat encodings).forM (storeGroup dpId)

/-- What the task has read from the object store. -/
structure ExternalUpload where
  encodings : Generator Item
  blockSizes : Dict BlockName ℕ
  size : ℤ
  count : ℤ

def readExternalUpload (settings : Settings) (encodingFile blocksFile : ExternalFile) :
    Task ExternalUpload := do
  let blocksObject ← getObject blocksFile
  let pairs ← Action.lift (blocksObject.blocks.mapM id)
  let hashed := pairs.map fun p => (p.1, p.2.map (hashBlockName settings.blake2b))
  let encodingToBlockMap := Dict.ofList hashed
  let blockSizes := Dict.tally (hashed.flatMap Prod.snd)
  let object ← getObject encodingFile
  let count ← Action.lift object.hashCount
  let size ← Action.lift object.hashSize
  Action.lift (ensure (count = encodingToBlockMap.keys.length) .assertionError)
  return ⟨externalEncodings (isJson encodingFile) object size count encodingToBlockMap,
    blockSizes, size, count⟩

def insertMetadata (dpId : DpId) (receiptToken : Token) (upload : ExternalUpload) :
    Statements Unit := do
  execute fun db => db.insertEncodingMetadata none dpId receiptToken upload.count
    upload.blockSizes.keys.length
  execute fun db => db.updateEncodingMetadataSetEncodingSize dpId upload.size
  execute fun db => db.insertBlockingMetadata dpId
    (upload.blockSizes.entries.map fun b => (b.1, (b.2 : ℤ)))

/-- The handler of the task itself: record the failure, and raise the exception again. -/
def failProvider (projectId : ProjectId) (dpId : DpId) (e : Error) : Statements Unit := do
  execute fun db => .ok (db.updateDataproviderUploadedState projectId dpId .error)
  Action.raise e

def storeExternalData (settings : Settings) (projectId : ProjectId) (dpId : DpId)
    (receiptToken : Token) (upload : ExternalUpload) : Statements Unit := do
  insertMetadata dpId receiptToken upload
  (storeEncodingsInDb settings dpId upload.encodings upload.size).handle
    (failProvider projectId dpId)
  execute fun db => .ok (db.updateEncodingMetadata none dpId .ready)
  execute fun db => db.updateBlocksState dpId upload.blockSizes.keys .ready

def pullExternalData (settings : Settings) (projectId : ProjectId) (dpId : DpId)
    (encodingFile blocksFile : ExternalFile) (receiptToken : Token) : Task Bool := do
  let w ← Action.get
  if w.db.checkProjectExists projectId then
    let upload ← readExternalUpload settings encodingFile blocksFile
    withDBConn (storeExternalData settings projectId dpId receiptToken upload)
    deleteObjectStoreFiles [encodingFile, blocksFile]
    scheduleCheck projectId false
  else
    deleteObjectStoreFiles [encodingFile, blocksFile]
    return false

/-- The task with its callback for a failure. -/
def runPullExternalData (settings : Settings) (projectId : ProjectId) (dpId : DpId)
    (encodingFile blocksFile : ExternalFile) (receiptToken : Token) : Task Bool :=
  (pullExternalData settings projectId dpId encodingFile blocksFile receiptToken).handle
    fun e => do handleUploadError dpId receiptToken; Action.raise e

section Refinement
variable (settings : Settings) (projectId : ProjectId) (dpId : DpId) (receiptToken : Token)

theorem insertEncodingsIntoBlocks_simulates (blockNames : List (List BlockName))
    (entityIds : List ℕ) (encodings : List Bytes) :
    Simulates (insertEncodingsIntoBlocks dpId blockNames entityIds encodings)
      (fun db => db.insertEncodingsIntoBlocks dpId blockNames entityIds encodings) := by
  refine simulates_get_bind (g := fun read db => do
    let lookup := read.blockLookup dpId
    let encodingIds := Database.computeEncodingIds entityIds dpId
    let db ← db.insertEncodings ((encodingIds.zip encodings).map fun p => ⟨p.1, p.2, dpId⟩)
    let blockData ← (entityIds.zip (encodingIds.zip blockNames)).mapM fun p =>
      Database.encodingBlockRows lookup dpId p.1 p.2.1 p.2.2
    db.insertEncodingblocks blockData.flatten) fun read => ?_
  refine (simulates_execute _).bind ?_
  exact simulates_lift_bind fun _ => simulates_execute _

theorem storeGroup_simulates (group : List (Option (Except Error Item))) :
    Simulates (storeGroup dpId group) (fun db => EntityService.storeGroup dpId db group) := by
  refine simulates_lift_bind fun group => ?_
  refine simulates_lift_bind fun _ => ?_
  refine simulates_lift_bind fun _ => ?_
  exact insertEncodingsIntoBlocks_simulates dpId _ _ _

theorem storeEncodingsInDb_simulates (encodings : Generator Item) (encodingSize : ℤ) :
    Simulates (storeEncodingsInDb settings dpId encodings encodingSize)
      (fun db => EntityService.storeEncodingsInDb settings db dpId encodings encodingSize) := by
  refine simulates_lift_bind fun n => ?_
  exact simulates_forM (storeGroup_simulates dpId) _

/-- An element that raises lets the storing raise, whatever has been stored before it. -/
theorem storeEncodingsInDb_raises {encodings : Generator Item} {encodingSize n : ℤ}
    (hn : settings.estimateGroupSize encodingSize = .ok n) (hpos : 1 ≤ n)
    (hraises : ∀ items, encodings.mapM id ≠ .ok items) (db : Database) :
    ∃ conn e, storeEncodingsInDb settings dpId encodings encodingSize ⟨db, false⟩ =
      (conn, .error e) := by
  cases h : EntityService.storeEncodingsInDb settings db dpId encodings encodingSize with
  | error e => exact (storeEncodingsInDb_simulates settings dpId encodings encodingSize).of_error h
  | ok db' =>
    obtain ⟨items, hitems, -⟩ := (storeEncodingsInDb_eq_ok hn hpos).mp h
    exact absurd hitems (hraises items)

theorem failProvider_raises (e : Error) (conn : Connection) :
    ∃ conn' e', failProvider projectId dpId e conn = (conn', .error e') := by
  unfold failProvider
  rw [Action.bind_apply]
  rcases hx : execute (fun db => .ok (db.updateDataproviderUploadedState projectId dpId .error))
      conn with ⟨conn', e' | u⟩
  · exact ⟨conn', e', rfl⟩
  · exact ⟨conn', e, rfl⟩

theorem storeExternalData_simulates (upload : ExternalUpload) :
    Simulates (storeExternalData settings projectId dpId receiptToken upload)
      (Tasks.storeExternalData settings dpId receiptToken upload.encodings upload.blockSizes
        upload.size upload.count) := by
  have hmetadata : Simulates (insertMetadata dpId receiptToken upload) (fun db => do
      let db ← db.insertEncodingMetadata none dpId receiptToken upload.count
        upload.blockSizes.keys.length
      let db ← db.updateEncodingMetadataSetEncodingSize dpId upload.size
      db.insertBlockingMetadata dpId
        (upload.blockSizes.entries.map fun b => (b.1, (b.2 : ℤ)))) := by
    refine (simulates_execute _).bind ?_
    exact (simulates_execute _).bind (simulates_execute _)
  have hstore := (storeEncodingsInDb_simulates settings dpId upload.encodings upload.size).handle
    (failProvider_raises projectId dpId)
  have hready := (simulates_execute fun db => .ok (db.updateEncodingMetadata none dpId .ready)).bind
    (simulates_execute fun db => db.updateBlocksState dpId upload.blockSizes.keys .ready)
  refine (hmetadata.bind (hstore.bind hready)).congr fun db => ?_
  simp only [bind_assoc, ok_bind]
  rfl

/-- The handler changes nothing that is committed. -/
theorem pullExternalData_agrees (encodingFile blocksFile : ExternalFile) :
    Action.Agrees
      (pullExternalData settings projectId dpId encodingFile blocksFile receiptToken)
      (Tasks.pullExternalData settings projectId dpId encodingFile blocksFile receiptToken) := by
  refine (Action.agrees_refl _).bind fun w => ?_
  by_cases hproject : w.db.checkProjectExists projectId = true
  · rw [if_pos hproject, if_pos hproject]
    unfold readExternalUpload
    simp only [Action.bind_assoc, Action.pure_bind]
    refine (Action.agrees_refl _).bind fun blocksObject => ?_
    refine (Action.agrees_refl _).bind fun pairs => ?_
    refine (Action.agrees_refl _).bind fun object => ?_
    refine (Action.agrees_refl _).bind fun count => ?_
    refine (Action.agrees_refl _).bind fun size => ?_
    refine (Action.agrees_refl _).bind fun _ => ?_
    refine Action.Agrees.bind ?_ fun _ => Action.agrees_refl _
    exact (storeExternalData_simulates settings projectId dpId receiptToken _).agrees
  · rw [if_neg hproject, if_neg hproject]
    exact Action.agrees_refl _

theorem runPullExternalData_agrees (encodingFile blocksFile : ExternalFile) :
    Action.Agrees
      (runPullExternalData settings projectId dpId encodingFile blocksFile receiptToken)
      (runJob settings projectId dpId receiptToken
        (.pullExternalData encodingFile blocksFile)) := by
  refine (pullExternalData_agrees settings projectId dpId receiptToken encodingFile
    blocksFile).handle fun e₁ e₂ => ?_
  refine (Action.agrees_refl _).bind fun _ => ?_
  exact fun _ => ⟨rfl, rfl⟩

end Refinement
section Failure
variable {settings : Settings} {projectId : ProjectId} {dpId : DpId} {receiptToken : Token}
  {encodingFile blocksFile : ExternalFile} {w : World}

/-- The task reaches `store_encodings_in_db`, and this raises, in whichever of its batches. -/
structure StoreRaises (settings : Settings) (projectId : ProjectId) (dpId : DpId)
    (receiptToken : Token) (encodingFile blocksFile : ExternalFile) (w : World) : Prop where
  project : w.db.checkProjectExists projectId = true
  raises : ∃ upload conn conn' e,
    readExternalUpload settings encodingFile blocksFile w = (w, .ok upload) ∧
    insertMetadata dpId receiptToken upload ⟨w.db, false⟩ = (conn, .ok ()) ∧
    storeEncodingsInDb settings dpId upload.encodings upload.size conn = (conn', .error e)

/-- The failure is recorded for the provider and for its upload, and no rows are left. -/
structure FailureRecorded (projectId : ProjectId) (dpId : DpId) (receiptToken : Token)
    (db : Database) : Prop where
  provider : ∀ d ∈ db.dataproviders, d.id = dpId → d.project = projectId → d.uploaded = .error
  vacant : db.Vacant dpId
  upload : db.FailedUpload receiptToken

theorem storeExternalData_raises (projectId : ProjectId) {upload : ExternalUpload}
    {conn conn' : Connection} {e : Error}
    (hmetadata : insertMetadata dpId receiptToken upload ⟨w.db, false⟩ = (conn, .ok ()))
    (hstore : storeEncodingsInDb settings dpId upload.encodings upload.size conn =
      (conn', .error e)) :
    ∃ conn'' e', storeExternalData settings projectId dpId receiptToken upload ⟨w.db, false⟩ =
      (conn'', .error e') := by
  obtain ⟨conn'', e', hfail⟩ := failProvider_raises projectId dpId e conn'
  have hhandled : (storeEncodingsInDb settings dpId upload.encodings upload.size).handle
      (failProvider projectId dpId) conn = (conn'', .error e') := by
    simp only [Action.handle, hstore, hfail]
  refine ⟨conn'', e', ?_⟩
  exact (Action.bind_of_ok hmetadata).trans (Action.bind_of_error hhandled)

/-- All that remains of the task is what its callback writes. -/
theorem runPullExternalData_of_storeRaises
    (h : StoreRaises settings projectId dpId receiptToken encodingFile blocksFile w) :
    (runPullExternalData settings projectId dpId encodingFile blocksFile receiptToken w).1 =
      { w with db := w.db.updateUploadState dpId receiptToken .error } := by
  obtain ⟨hproject, upload, conn, conn', e, hread, hmetadata, hstore⟩ := h
  obtain ⟨conn'', e', hraises⟩ := storeExternalData_raises projectId hmetadata hstore
  have hblock : withDBConn (storeExternalData settings projectId dpId receiptToken upload) w =
      (w, .error e') := by
    simp only [withDBConn, hraises]
  have htask : pullExternalData settings projectId dpId encodingFile blocksFile receiptToken w =
      (w, .error e') := by
    unfold pullExternalData
    rw [Action.get_bind, if_pos hproject]
    exact (Action.bind_of_ok hread).trans (Action.bind_of_error hblock)
  simp only [runPullExternalData, Action.handle, htask]
  rfl

/-- The failure of an external ingestion is recorded exactly when it had been recorded before:
what the handler of the task writes never survives. -/
theorem failureRecorded_iff
    (h : StoreRaises settings projectId dpId receiptToken encodingFile blocksFile w) :
    FailureRecorded projectId dpId receiptToken
        (runPullExternalData settings projectId dpId encodingFile blocksFile receiptToken w).1.db ↔
      (∀ d ∈ w.db.dataproviders, d.id = dpId → d.project = projectId → d.uploaded = .error) ∧
        w.db.Vacant dpId := by
  rw [runPullExternalData_of_storeRaises h]
  have hsame := Database.sameData_updateUploadState w.db dpId receiptToken .error
  have hproviders : (w.db.updateUploadState dpId receiptToken .error).dataproviders =
      w.db.dataproviders := by
    unfold Database.updateUploadState
    split_ifs <;> rfl
  constructor
  · rintro ⟨hprovider, hvacant, -⟩
    rw [hproviders] at hprovider
    exact ⟨hprovider, hsame.symm.vacant hvacant⟩
  · rintro ⟨hprovider, hvacant⟩
    refine ⟨?_, hsame.vacant hvacant, Database.failed_updateUploadState w.db dpId receiptToken⟩
    rw [hproviders]
    exact hprovider

end Failure

/-- An upload with blocks whose only encoding is no base64 text. -/
def corruptUpload : World where
  db := newProject true
  quarantine := Dict.empty
  objects := ⟨[(⟨"uploads", "project/1/clks.json".toList⟩,
      ⟨.ok 1, .ok 1, [], [.ok (.str "Q".toList)], []⟩),
    (⟨"uploads", "project/1/blocks.json".toList⟩,
      ⟨.ok 1, .ok 1, [], [], [.ok ("0".toList, [.str "1".toList])]⟩)], by decide⟩

theorem storeRaises_corruptUpload : StoreRaises defaultSettings "project" 1 "receipt"
    ⟨"uploads", "project/1/clks.json".toList⟩ ⟨"uploads", "project/1/blocks.json".toList⟩
    corruptUpload := by
  let hashed := [("0".toList, [hashBlockName knownDigests (.str "1".toList)])]
  let upload : ExternalUpload := ⟨externalEncodings true
    ⟨.ok 1, .ok 1, [], [.ok (.str "Q".toList)], []⟩ 1 1 (Dict.ofList hashed),
    Dict.tally (hashed.flatMap Prod.snd), 1, 1⟩
  have hread : readExternalUpload defaultSettings ⟨"uploads", "project/1/clks.json".toList⟩
      ⟨"uploads", "project/1/blocks.json".toList⟩ corruptUpload = (corruptUpload, .ok upload) := rfl
  have hmetadata : ∃ db, insertMetadata 1 "receipt" upload ⟨corruptUpload.db, false⟩ =
      (⟨db, false⟩, .ok ()) := ⟨_, rfl⟩
  obtain ⟨db, hmetadata⟩ := hmetadata
  obtain ⟨n, hn, hpos⟩ := defaultSettings.estimateGroupSize_natCast 1
  have hraises : ∀ items, upload.encodings.mapM id ≠ .ok items := by
    intro items h
    cases h
  obtain ⟨conn, e, hstore⟩ := storeEncodingsInDb_raises defaultSettings 1 hn hpos hraises db
  exact ⟨by decide, upload, _, conn, e, hread, hmetadata, hstore⟩

theorem failureRecorded_corruptUpload : FailureRecorded "project" 1 "receipt"
      (runPullExternalData defaultSettings "project" 1 ⟨"uploads", "project/1/clks.json".toList⟩
        ⟨"uploads", "project/1/blocks.json".toList⟩ "receipt" corruptUpload).1.db ↔
    (∀ d ∈ corruptUpload.db.dataproviders, d.id = 1 → d.project = "project" →
      d.uploaded = .error) ∧ corruptUpload.db.Vacant 1 :=
  failureRecorded_iff storeRaises_corruptUpload

/-- The provider is in progress after its upload has failed. -/
theorem not_failureRecorded_corruptUpload :
    StoreRaises defaultSettings "project" 1 "receipt" ⟨"uploads", "project/1/clks.json".toList⟩
        ⟨"uploads", "project/1/blocks.json".toList⟩ corruptUpload ∧
      ¬ FailureRecorded "project" 1 "receipt"
        (runPullExternalData defaultSettings "project" 1 ⟨"uploads", "project/1/clks.json".toList⟩
          ⟨"uploads", "project/1/blocks.json".toList⟩ "receipt" corruptUpload).1.db := by
  refine ⟨storeRaises_corruptUpload, fun h => ?_⟩
  rw [runPullExternalData_of_storeRaises storeRaises_corruptUpload] at h
  have hprovider := h.provider ⟨1, "token-1", .inProgress, "project"⟩ (by decide) rfl rfl
  cases hprovider

end Tasks.Connected
end EntityService
