import EntityService.Database.Untouched
import EntityService.Views.Unaltered

/-! Requests together with the tasks that they schedule, one after the other. -/
namespace EntityService.Views
open Lib Database Tasks

variable {settings : Settings} {projectId : ProjectId} {dpId other : DpId} {token : Token}

/-- An upload to a project and the task that it schedules. The flag of the project says whether
a JSON document may have blocks. -/
def ingest (settings : Settings) (projectId : ProjectId) (dpId : DpId) (token : Token) :
    Upload → Task Bool
  | .json clkJson usesBlocking => do
    let scheduled ← projectClksPost settings projectId dpId clkJson token usesBlocking
    runJob settings projectId dpId token scheduled.1
  | .binary headers data => projectBinaryclksPost settings projectId dpId headers data token

/-- The view of JSON uploads ends well when the document is accepted. -/
theorem projectClksPost_ok {clkJson : ClkJson} {usesBlocking : Bool} {w w' : World}
    {scheduled : Job × Bool}
    (h : projectClksPost settings projectId dpId clkJson token usesBlocking w =
      (w', .ok scheduled)) :
    ∃ w1, handleEncodingUploadJson settings projectId dpId clkJson token usesBlocking w =
        (w1, .ok scheduled.1) ∧
      w' = { w1 with db := w1.db.setDataproviderUploadState dpId .done } := by
  obtain ⟨w1, job, hhandle, h1⟩ := Action.bind_eq_ok.mp h
  obtain ⟨w2, _, hdone, h2⟩ := Action.bind_eq_ok.mp h1
  obtain ⟨w3, check, hcheck, h3⟩ := Action.bind_eq_ok.mp h2
  obtain rfl := scheduleCheck_ok hcheck
  obtain ⟨db, hdb, rfl⟩ := transaction_eq_ok.mp hdone
  cases hdb
  cases h3
  exact ⟨w1, Action.handle_ok (fun e w1 w2 a => by cases e <;> exact nofun) hhandle, rfl⟩

theorem projectBinaryclksPost_ok {headers : BinaryHeaders} {data : Bytes} {w w' : World} {b : Bool}
    (h : projectBinaryclksPost settings projectId dpId headers data token w = (w', .ok b)) :
    ∃ w1 u, handleBinaryUpload settings projectId dpId headers data token w = (w1, .ok u) ∧
      w' = { w1 with db := w1.db.setDataproviderUploadState dpId .done } := by
  obtain ⟨w1, u, hhandle, h1⟩ := Action.bind_eq_ok.mp h
  obtain ⟨w2, _, hdone, h2⟩ := Action.bind_eq_ok.mp h1
  obtain rfl := scheduleCheck_ok h2
  obtain ⟨db, hdb, rfl⟩ := transaction_eq_ok.mp hdone
  cases hdb
  exact ⟨w1, u, Action.handle_ok (fun e w1 w2 a hraise => by cases congrArg Prod.snd hraise)
    hhandle, rfl⟩

/-- A relation between the databases before and after each statement of an upload. -/
structure KeptByUploads (R : Database → Database → Prop) (dpId : DpId) : Prop where
  refl : ∀ db, R db db
  trans : ∀ db db' db'', R db db' → R db' db'' → R db db''
  insertEncodingMetadata : ∀ {db db' : Database} {clksFilename : Option FileName} {token : Token}
    {count blockCount : ℤ},
    db.insertEncodingMetadata clksFilename dpId token count blockCount = .ok db' → R db db'
  setEncodingSize : ∀ {db db' : Database} {size : ℤ},
    db.updateEncodingMetadataSetEncodingSize dpId size = .ok db' → R db db'
  updateEncodingMetadata : ∀ (db : Database) (clksFilename : Option FileName)
    (state : ProcessedState), R db (db.updateEncodingMetadata clksFilename dpId state)
  updateUploadState : ∀ (db : Database) (token : Token) (state : ProcessedState),
    R db (db.updateUploadState dpId token state)
  setDataproviderUploadState : ∀ (db : Database) (state : UploadedState),
    R db (db.setDataproviderUploadState dpId state)
  insertBlockingMetadata : ∀ {db db' : Database} {blocks : List (BlockName × ℤ)},
    db.insertBlockingMetadata dpId blocks = .ok db' → R db db'
  updateBlocksState : ∀ {db db' : Database} {blocks : List BlockName} {state : ProcessedState},
    db.updateBlocksState dpId blocks state = .ok db' → R db db'
  storeEncodingsInDb : ∀ {settings : Settings} {db db' : Database} {gen : Generator Item}
    {size : ℤ}, EntityService.storeEncodingsInDb settings db dpId gen size = .ok db' → R db db'

namespace KeptByUploads
variable {R : Database → Database → Prop} (h : KeptByUploads R dpId)

/-- An action keeps the relation, whether it ends well or in an exception. -/
def Kept {α : Type} (R : Database → Database → Prop) (x : Task α) : Prop :=
  Action.Keeps (fun w w' => R w.db w'.db) x

include h

theorem lift {α : Type} (x : Except Error α) : Kept R (Action.lift x : Task α) :=
  Action.keeps_lift (fun w => h.refl w.db) x

theorem get : Kept R (Action.get : Task World) := Action.keeps_get fun w => h.refl w.db

theorem raise {α : Type} (e : Error) : Kept R (Action.raise e : Task α) :=
  Action.keeps_raise (fun w => h.refl w.db) e

theorem pure {α : Type} (a : α) : Kept R (pure a : Task α) :=
  Action.keeps_pure (fun w => h.refl w.db) a

theorem bind {α β : Type} {x : Task α} {f : α → Task β} (hx : Kept R x)
    (hf : ∀ a, Kept R (f a)) : Kept R (x >>= f) :=
  Action.keeps_bind (fun w w' w'' => h.trans w.db w'.db w''.db) hx hf

theorem handle {α : Type} {x : Task α} {handler : Error → Task α} (hx : Kept R x)
    (hhandler : ∀ e, Kept R (handler e)) : Kept R (x.handle handler) :=
  Action.keeps_handle (fun w w' w'' => h.trans w.db w'.db w''.db) hx hhandler

theorem transaction {body : Database → Except Error Database}
    (hbody : ∀ db db', body db = .ok db' → R db db') :
    Kept R (EntityService.transaction body) := by
  refine Action.keeps_atomic (fun w => h.refl w.db) fun w w' hw => ?_
  obtain ⟨db, hdb, he⟩ := bind_eq_ok.mp hw
  cases he
  exact hbody w.db db hdb

theorem setUploadState (state : UploadedState) : Kept R (Views.setUploadState dpId state) := by
  refine h.transaction fun db db' hdb => ?_
  cases hdb
  exact h.setDataproviderUploadState db state

theorem scheduleCheck (checkDataReady : Bool) :
    Kept R (Tasks.scheduleCheck projectId checkDataReady) :=
  h.bind h.get fun _ => h.lift _

theorem deleteObjectStoreFiles (files : List ExternalFile) :
    Kept R (Tasks.deleteObjectStoreFiles files) :=
  Action.keeps_modify fun w => h.refl w.db

theorem getObject (file : ExternalFile) : Kept R (Tasks.getObject file) :=
  h.bind h.get fun _ => h.lift _

theorem uploadClkDataBinary (gen : Generator Item) (count size : ℤ) :
    Kept R (Tasks.uploadClkDataBinary settings dpId gen token count size) := by
  refine h.bind (h.transaction fun db db' hdb => ?_) fun _ => h.transaction fun db db' hdb => ?_
  · obtain ⟨db1, h1, h2⟩ := bind_eq_ok.mp hdb
    exact h.trans _ _ _ (h.insertEncodingMetadata h1) (h.setEncodingSize h2)
  · obtain ⟨db1, h1, hdb⟩ := bind_eq_ok.mp hdb
    obtain ⟨db2, h2, hdb⟩ := bind_eq_ok.mp hdb
    obtain ⟨db3, h3, hdb⟩ := bind_eq_ok.mp hdb
    cases hdb
    have hstored := h.trans _ _ _ (h.trans _ _ _ (h.setEncodingSize h1)
      (h.insertBlockingMetadata h2)) (h.storeEncodingsInDb h3)
    exact h.trans _ _ _ hstored (h.updateEncodingMetadata _ none .ready)

theorem storeExternalData (gen : Generator Item) (blockSizes : Dict BlockName ℕ) (size count : ℤ) :
    Kept R (EntityService.transaction
      (Tasks.storeExternalData settings dpId token gen blockSizes size count)) := by
  refine h.transaction fun db db' hdb => ?_
  obtain ⟨db1, h1, hdb⟩ := bind_eq_ok.mp hdb
  obtain ⟨db2, h2, hdb⟩ := bind_eq_ok.mp hdb
  obtain ⟨db3, h3, hdb⟩ := bind_eq_ok.mp hdb
  obtain ⟨db4, h4, h5⟩ := bind_eq_ok.mp hdb
  have hdeclared := h.trans _ _ _ (h.trans _ _ _ (h.insertEncodingMetadata h1)
    (h.setEncodingSize h2)) (h.insertBlockingMetadata h3)
  have hstored := h.trans _ _ _ (h.trans _ _ _ hdeclared (h.storeEncodingsInDb h4))
    (h.updateEncodingMetadata _ none .ready)
  exact h.trans _ _ _ hstored (h.updateBlocksState h5)

theorem pullExternalDataEncodingsOnly (file : ExternalFile) :
    Kept R (Tasks.pullExternalDataEncodingsOnly settings projectId dpId file token) := by
  refine h.bind h.get fun w => ?_
  split
  · exact h.bind (h.getObject file) fun _ => h.bind (h.lift _) fun _ => h.bind (h.lift _) fun _ =>
      h.bind (h.lift _) fun _ => h.bind (h.uploadClkDataBinary _ _ _) fun _ =>
        h.bind (h.deleteObjectStoreFiles _) fun _ => h.scheduleCheck false
  · exact h.bind (h.deleteObjectStoreFiles _) fun _ => h.pure false

theorem pullExternalData (encodingFile blocksFile : ExternalFile) :
    Kept R (Tasks.pullExternalData settings projectId dpId encodingFile blocksFile token) := by
  refine h.bind h.get fun w => ?_
  split
  · exact h.bind (h.getObject _) fun _ => h.bind (h.lift _) fun _ => h.bind (h.getObject _) fun _ =>
      h.bind (h.lift _) fun _ => h.bind (h.lift _) fun _ => h.bind (h.lift _) fun _ =>
        h.bind (h.storeExternalData _ _ _ _) fun _ => h.bind (h.deleteObjectStoreFiles _) fun _ =>
          h.scheduleCheck false
  · exact h.bind (h.deleteObjectStoreFiles _) fun _ => h.pure false

theorem handleRawUpload : Kept R (Tasks.handleRawUpload settings projectId dpId token) := by
  refine h.bind h.get fun w => ?_
  split
  · refine h.bind (h.lift _) fun _ => h.bind (h.lift _) fun _ => h.bind (h.lift _) fun p => ?_
    refine h.bind (h.transaction fun db db' hdb => h.storeEncodingsInDb hdb) fun _ => ?_
    have hinvalid : Kept R (handleInvalidEncodingData dpId) := by
      refine h.transaction fun db db' hdb => ?_
      obtain ⟨_, -, hdb⟩ := bind_eq_ok.mp hdb
      cases hdb
      exact h.updateEncodingMetadata _ _ _
    have hsave : ∀ size : ℕ, Kept R (EntityService.transaction (fun db => do
        let db ← db.updateEncodingMetadataSetEncodingSize dpId size
        return db.updateEncodingMetadata none dpId .ready)) := by
      refine fun size => h.transaction fun db db' hdb => ?_
      obtain ⟨db1, h1, hdb⟩ := bind_eq_ok.mp hdb
      cases hdb
      exact h.trans _ _ _ (h.setEncodingSize h1) (h.updateEncodingMetadata _ none .ready)
    refine h.bind h.get fun w => ?_
    split
    · exact h.bind hinvalid fun _ => h.bind (hsave _) fun _ => h.scheduleCheck true
    · exact h.bind (hsave _) fun _ => h.scheduleCheck true
  · exact h.pure false

theorem runJob (job : Job) : Kept R (Tasks.runJob settings projectId dpId token job) := by
  have herrback : ∀ e, Kept R (do
      handleUploadError dpId token
      Action.raise e : Task Bool) := by
    refine fun e => h.bind (h.transaction fun db db' hdb => ?_) fun _ => h.raise e
    cases hdb
    exact h.updateUploadState db token .error
  cases job with
  | pullExternalDataEncodingsOnly file =>
    exact h.handle (h.pullExternalDataEncodingsOnly file) herrback
  | pullExternalData encodingFile blocksFile =>
    exact h.handle (h.pullExternalData encodingFile blocksFile) herrback
  | handleRawUpload => exact h.handleRawUpload

theorem quarantineUpload (entries : List (List JsonScalar)) :
    Kept R (Views.quarantineUpload settings dpId entries token) := by
  refine h.bind (h.lift _) fun _ => h.bind (Action.keeps_modify fun w => h.refl w.db)
    fun _ => h.bind (h.transaction fun db db' hdb => ?_) fun _ => h.pure _
  obtain ⟨db1, h1, h2⟩ := bind_eq_ok.mp hdb
  exact h.trans _ _ _ (h.insertEncodingMetadata h1) (h.insertBlockingMetadata h2)

theorem handleEncodingUploadJson (clkJson : ClkJson) (usesBlocking : Bool) :
    Kept R (Views.handleEncodingUploadJson settings projectId dpId clkJson token usesBlocking) := by
  unfold Views.handleEncodingUploadJson
  split
  · exact h.raise _
  · split
    · split
      · exact h.lift _
      · exact h.bind (h.lift _) fun _ => h.quarantineUpload _
    · exact h.bind (h.lift _) fun _ => h.quarantineUpload _

theorem projectClksPost (clkJson : ClkJson) (usesBlocking : Bool) :
    Kept R (Views.projectClksPost settings projectId dpId clkJson token usesBlocking) := by
  refine h.bind (h.handle (h.handleEncodingUploadJson clkJson usesBlocking) fun e => ?_) fun _ =>
    h.bind (h.setUploadState .done) fun _ => h.bind (h.scheduleCheck false) fun _ => h.pure _
  split
  · exact h.bind (h.setUploadState .notStarted) fun _ => h.raise _
  · exact h.bind (h.setUploadState .error) fun _ => h.raise _

theorem projectBinaryclksPost (headers : BinaryHeaders) (data : Bytes) :
    Kept R (Views.projectBinaryclksPost settings projectId dpId headers data token) := by
  have hupload : Kept R (Views.handleBinaryUpload settings projectId dpId headers data token) := by
    refine h.bind h.get fun _ => h.bind (h.lift _) fun _ => h.bind (h.lift _) fun _ =>
      h.bind (h.lift _) fun _ => h.bind (h.lift _) fun _ =>
        h.handle (h.uploadClkDataBinary _ _ _) fun e => ?_
    split
    · exact h.raise _
    · exact h.raise _
  exact h.bind (h.handle hupload fun e => h.bind (h.setUploadState .error) fun _ => h.raise e)
    fun _ => h.bind (h.setUploadState .done) fun _ => h.scheduleCheck false

/-- What every statement of an upload keeps, the whole upload keeps. -/
theorem ingest (upload : Upload) :
    Kept R (Views.ingest settings projectId dpId token upload) := by
  cases upload with
  | json clkJson usesBlocking =>
    exact h.bind (h.projectClksPost clkJson usesBlocking) fun _ => h.runJob _
  | binary headers data => exact h.projectBinaryclksPost headers data

end KeptByUploads

/-- An action on behalf of one provider leaves the dataset of another one alone. -/
def LeavesAlone {α : Type} (dpId : DpId) (x : Task α) : Prop :=
  Action.Keeps (fun w w' => Untouched dpId w.db w'.db) x

theorem keptByUploads_untouched (hne : other ≠ dpId) : KeptByUploads (Untouched dpId) other where
  refl := Untouched.refl dpId
  trans _ _ _ := Untouched.trans
  insertEncodingMetadata := Untouched.insertEncodingMetadata
  setEncodingSize := Untouched.updateEncodingMetadataSetEncodingSize
  updateEncodingMetadata _ := Untouched.updateEncodingMetadata
  updateUploadState _ := Untouched.updateUploadState
  setDataproviderUploadState _ _ := ⟨rfl, rfl, rfl, rfl⟩
  insertBlockingMetadata := Untouched.insertBlockingMetadata hne
  updateBlocksState := Untouched.updateBlocksState hne
  storeEncodingsInDb := Untouched.storeEncodingsInDb hne

/-- Whatever one provider uploads, the datasets of the others stay as they are. -/
theorem LeavesAlone.ingest (hne : other ≠ dpId) (upload : Upload) :
    LeavesAlone dpId (Views.ingest settings projectId other token upload) :=
  (keptByUploads_untouched hne).ingest upload

/-- The upload of one provider to its project. -/
structure Submission where
  projectId : ProjectId
  dpId : DpId
  token : Token
  upload : Upload

/-- One upload after the other, whether it ends well or in an exception. -/
def ingestAll (settings : Settings) (submissions : List Submission) (w : World) : World :=
  submissions.foldl (fun w s => (ingest settings s.projectId s.dpId s.token s.upload w).1) w

theorem ingestAll_append (settings : Settings) (submissions submissions' : List Submission)
    (w : World) : ingestAll settings (submissions ++ submissions') w =
      ingestAll settings submissions' (ingestAll settings submissions w) :=
  List.foldl_append

theorem ingestAll_of_ok {s : Submission} {submissions : List Submission} {w w' : World} {b : Bool}
    (h : ingest settings s.projectId s.dpId s.token s.upload w = (w', .ok b)) :
    ingestAll settings (s :: submissions) w = ingestAll settings submissions w' := by
  unfold ingestAll
  rw [List.foldl_cons, h]

/-- The keys of the encodings are distinct whenever they were before. -/
def KeepsKeys (db db' : Database) : Prop :=
  (db.encodings.map EncodingRow.encodingId).Nodup →
    (db'.encodings.map EncodingRow.encodingId).Nodup

theorem keepsKeys_of_eq {db db' : Database} (h : db'.encodings = db.encodings) :
    KeepsKeys db db' := by
  intro hnodup
  rw [h]
  exact hnodup

theorem keepsKeys_addItems {db : Database} {items : List Item} (h : db.Admits dpId items) :
    KeepsKeys db (db.addItems dpId items) := by
  intro hnodup
  rw [Database.addItems, List.map_append, List.map_map, List.nodup_append]
  refine ⟨hnodup, h.nodup, ?_⟩
  rintro a ha b hb rfl
  obtain ⟨item, hitem, rfl⟩ := List.mem_map.mp hb
  exact h.fresh item hitem ha

theorem keptByUploads_keepsKeys (dpId : DpId) : KeptByUploads KeepsKeys dpId where
  refl _ := id
  trans _ _ _ h h' := h' ∘ h
  insertEncodingMetadata h := by
    obtain ⟨-, -, rfl⟩ := Database.insertEncodingMetadata_eq_ok.mp h
    exact keepsKeys_of_eq rfl
  setEncodingSize h := by
    obtain ⟨-, rfl⟩ := Database.updateEncodingMetadataSetEncodingSize_eq_ok.mp h
    exact keepsKeys_of_eq rfl
  updateEncodingMetadata _ _ _ := keepsKeys_of_eq rfl
  updateUploadState db token state :=
    keepsKeys_of_eq (sameData_updateUploadState db dpId token state).encodings
  setDataproviderUploadState _ _ := keepsKeys_of_eq rfl
  insertBlockingMetadata h := by
    obtain ⟨-, rfl⟩ := insertBlockingMetadata_eq_ok.mp h
    exact keepsKeys_of_eq rfl
  updateBlocksState h := by
    obtain ⟨_, -, h⟩ := bind_eq_ok.mp h
    cases h
    exact keepsKeys_of_eq rfl
  storeEncodingsInDb h := by
    obtain ⟨n, items, -, -, -, hadmits, rfl⟩ := storeEncodingsInDb_ok h
    exact keepsKeys_addItems hadmits

/-- No upload stores an encoding under a key that is in use. -/
theorem keepsKeys_ingestAll (settings : Settings) (submissions : List Submission) (w : World) :
    KeepsKeys w.db (ingestAll settings submissions w).db := by
  induction submissions generalizing w with
  | nil => exact id
  | cons s submissions ih =>
    intro hnodup
    apply ih
    exact (keptByUploads_keepsKeys s.dpId).ingest s.upload w hnodup

/-- The dataset of a provider stays as it is while others upload theirs. -/
theorem untouched_ingestAll (settings : Settings) {submissions : List Submission} {dpId : DpId}
    (h : ∀ s ∈ submissions, s.dpId ≠ dpId) (w : World) :
    Untouched dpId w.db (ingestAll settings submissions w).db := by
  induction submissions generalizing w with
  | nil => exact Untouched.refl dpId w.db
  | cons s submissions ih =>
    obtain ⟨hs, hrest⟩ := List.forall_mem_cons.mp h
    exact (LeavesAlone.ingest hs s.upload w).trans (ih hrest _)

end EntityService.Views
