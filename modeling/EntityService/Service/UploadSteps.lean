import EntityService.Database.ProviderUploads
import EntityService.Database.Providers
import EntityService.Service.Program

/-! What the requests that upload encodings and the tasks they schedule can do in a step. -/
namespace EntityService.Service
open Lib

theorem committed_eq_some {α : Type} {e : Except Error α} {a : α} :
    committed e = some a ↔ e = .ok a := by
  cases e with
  | error e => simp [committed, Except.toOption]
  | ok b => simp [committed, Except.toOption]

namespace Upload
variable {u : Upload} {db db' : Database} {file : Option FileName} {blockCount : ℤ}

def row (u : Upload) (file : Option FileName) (blockCount : ℤ) : UploadRow :=
  ⟨u.dpId, u.receiptToken, file, .pending, none, u.count, blockCount⟩

theorem insertMetadata_ok (h : u.insertMetadata db file blockCount = .ok db') :
    db.ChangesUploads u.dpId db' ∧
      db'.uploadsOf u.dpId = db.uploadsOf u.dpId ++ [u.row file blockCount] :=
  Database.changesUploads_insertEncodingMetadata h

theorem insertSizedMetadata_ok (h : u.insertSizedMetadata db = .ok db') :
    db.ChangesUploads u.dpId db' ∧ db'.uploadsOf u.dpId =
      (db.uploadsOf u.dpId ++ [u.row none 1]).map
        fun r => { r with encodingSize := some u.size } := by
  obtain ⟨db1, h1, h2⟩ := bind_eq_ok.mp h
  obtain ⟨hchanges1, hrows1⟩ := insertMetadata_ok h1
  obtain ⟨hchanges2, hrows2⟩ := Database.changesUploads_setEncodingSize h2
  exact ⟨hchanges1.trans hchanges2, by rw [hrows2, hrows1]⟩

theorem setReady_ok (h : u.setReady db = .ok db') :
    db.ChangesUploads u.dpId db' ∧ db'.uploadsOf u.dpId = (db.uploadsOf u.dpId).map
      fun r => { r with encodingSize := some u.size, state := .ready, file := none } := by
  obtain ⟨db1, h1, h2⟩ := bind_eq_ok.mp h
  cases h2
  obtain ⟨hchanges1, hrows1⟩ := Database.changesUploads_setEncodingSize h1
  obtain ⟨hchanges2, hrows2⟩ :=
    Database.changesUploads_updateEncodingMetadata db1 u.dpId none .ready
  exact ⟨hchanges1.trans hchanges2, by rw [hrows2, hrows1, List.map_map]; rfl⟩

theorem insertReady_ok (h : u.insertReady db = .ok db') :
    db.ChangesUploads u.dpId db' ∧ db'.uploadsOf u.dpId =
      (db.uploadsOf u.dpId ++ [u.row none u.blockCount]).map
        fun r => { r with encodingSize := some u.size, state := .ready, file := none } := by
  obtain ⟨db1, h1, h2⟩ := bind_eq_ok.mp h
  obtain ⟨hchanges1, hrows1⟩ := insertMetadata_ok h1
  obtain ⟨hchanges2, hrows2⟩ := setReady_ok h2
  exact ⟨hchanges1.trans hchanges2, by rw [hrows2, hrows1]⟩

end Upload

/-- A request inserts one row, and sets its encoding size at most. -/
theorem UploadRequest.insertOwnMetadata_ok {r : UploadRequest} {db db' : Database}
    (h : r.insertOwnMetadata db = .ok db') :
    db.ChangesUploads r.upload.dpId db' ∧ ∃ row f, (∀ x, (f x : UploadRow).state = x.state) ∧
      row.state = .pending ∧
        db'.uploadsOf r.upload.dpId = (db.uploadsOf r.upload.dpId ++ [row]).map f := by
  unfold insertOwnMetadata at h
  split at h
  case h_1 =>
    obtain ⟨hchanges, hrows⟩ := Upload.insertMetadata_ok h
    exact ⟨hchanges, r.upload.row _ _, id, fun _ => rfl, rfl, by rw [hrows, List.map_id]⟩
  case h_2 =>
    obtain ⟨hchanges, hrows⟩ := Upload.insertSizedMetadata_ok h
    exact ⟨hchanges, _, fun x => { x with encodingSize := some r.upload.size }, fun _ => rfl, rfl,
      hrows⟩

/-- The exceptions in these phases make the provider free again. -/
def RequestPhase.Guarded : RequestPhase → Bool
  | .locked | .inserted | .handedOver => true
  | _ => false

def RequestPhase.Answered : RequestPhase → Bool
  | .created | .refused => true
  | _ => false

inductive RequestStep (db : Database) (r : UploadRequest) :
    Action → Database → RequestPhase → List Schedule → Prop
  | lock (h : r.phase = .received)
      (hfree : (db.isDataproviderAllowedToUploadAndLock r.upload.dpId).1 = true) :
      RequestStep db r .proceed (db.isDataproviderAllowedToUploadAndLock r.upload.dpId).2 .locked []
  | refuse (h : r.phase = .received) : RequestStep db r .proceed db .refused []
  | insert {db' : Database} (h : r.phase = .locked) (hok : r.insertOwnMetadata db = .ok db')
      (hroute : r.route ≠ .objectStore ∧ r.route ≠ .objectStoreAndBlocks) :
      RequestStep db r .proceed db' .inserted []
  | delegate (h : r.phase = .locked) (withBlocks : Bool)
      (hroute : r.route = if withBlocks then .objectStoreAndBlocks else .objectStore) :
      RequestStep db r .proceed db .handedOver [.pullExternalData withBlocks r.upload]
  | delegateRaw (h : r.phase = .inserted) (hroute : r.route = .json) :
      RequestStep db r .proceed db .handedOver [.handleRawUpload r.upload]
  | store {db' : Database} (h : r.phase = .inserted) (hok : r.upload.setReady db = .ok db') :
      RequestStep db r .proceed db' .handedOver []
  | leave (h : r.phase = .handedOver) : RequestStep db r .proceed db .accepted []
  | setDone (h : r.phase = .accepted) :
      RequestStep db r .proceed (db.setDataproviderUploadState r.upload.dpId .done) .done []
  | check (h : r.phase = .done) {uploaded : Bool}
      (huploaded : db.clksUploadedToProject r.upload.projectId false = .ok uploaded) :
      RequestStep db r .proceed db (if uploaded then .allUploaded else .created) []
  | notify (h : r.phase = .allUploaded) :
      RequestStep db r .proceed db .created [.checkForExecutableRuns r.upload.projectId]
  | reset {problem : Bool} (h : r.phase = .raised problem) :
      RequestStep db r .proceed
        (db.setDataproviderUploadState r.upload.dpId (r.resetState problem)) .refused []
  | fail {a : Action} {problem : Bool} (ha : a = .raise ∨ a = .problem)
      (h : r.phase.Guarded = true) : RequestStep db r a db (.raised problem) []
  | abort {a : Action} (ha : a = .raise ∨ a = .problem) (h : r.phase.Guarded = false)
      (hanswered : r.phase.Answered = false) : RequestStep db r a db .refused []

theorem requestStep_of_step {r : UploadRequest} {db db' : Database} {a : Action}
    {phase : RequestPhase} {schedules : List Schedule}
    (h : r.step db a = some (db', phase, schedules)) : RequestStep db r a db' phase schedules := by
  have hraise : ∀ problem, (a = .raise ∨ a = .problem) →
      (r.raise problem).map (fun phase => (db, phase, [])) = some (db', phase, schedules) →
        RequestStep db r a db' phase schedules := by
    intro problem ha h
    obtain ⟨phase', hphase, he⟩ := Option.map_eq_some_iff.mp h
    cases he
    unfold UploadRequest.raise at hphase
    split at hphase
    case h_1 hp | h_2 hp | h_3 hp =>
      cases hphase
      exact .fail ha (by rw [hp]; rfl)
    case h_4 | h_5 => cases hphase
    case h_6 h1 h2 h3 h4 h5 =>
      cases hphase
      refine .abort ha ?_ ?_
      · cases hp : r.phase with
        | locked => exact absurd hp h1
        | inserted => exact absurd hp h2
        | handedOver => exact absurd hp h3
        | _ => rfl
      · cases hp : r.phase with
        | created => exact absurd hp h4
        | refused => exact absurd hp h5
        | _ => rfl
  cases a with
  | raise => exact hraise false (.inl rfl) h
  | problem => exact hraise true (.inr rfl) h
  | schedule | header | overLimit => cases h
  | proceed =>
    change r.proceed db = _ at h
    unfold UploadRequest.proceed at h
    split at h
    case h_1 hphase =>
      dsimp only at h
      split_ifs at h with hfree
      · cases h
        exact .lock hphase hfree
      · cases h
        exact .refuse hphase
    case h_2 hphase =>
      split at h
      case h_1 hroute =>
        cases h
        exact .delegate hphase false hroute
      case h_2 hroute =>
        cases h
        exact .delegate hphase true hroute
      case h_3 h1 h2 =>
        obtain ⟨db'', hok, he⟩ := Option.map_eq_some_iff.mp h
        cases he
        exact .insert hphase (committed_eq_some.mp hok) ⟨h1, h2⟩
    case h_3 hphase =>
      split at h
      case h_1 hroute =>
        cases h
        exact .delegateRaw hphase hroute
      case h_2 =>
        obtain ⟨db'', hok, he⟩ := Option.map_eq_some_iff.mp h
        cases he
        exact .store hphase (committed_eq_some.mp hok)
    case h_4 hphase =>
      cases h
      exact .leave hphase
    case h_5 hphase =>
      cases h
      exact .setDone hphase
    case h_6 hphase =>
      obtain ⟨uploaded, hok, he⟩ := Option.map_eq_some_iff.mp h
      cases he
      exact .check hphase (committed_eq_some.mp hok)
    case h_7 hphase =>
      cases h
      exact .notify hphase
    case h_8 hphase =>
      cases h
      exact .reset hphase
    case h_9 | h_10 => cases h

theorem uploadsOf_requestStep {r : UploadRequest} {db db' : Database} {a : Action}
    {phase : RequestPhase} {schedules : List Schedule}
    (h : RequestStep db r a db' phase schedules) {dpId : DpId} (hdp : dpId ≠ r.upload.dpId) :
    db'.uploadsOf dpId = db.uploadsOf dpId := by
  cases h with
  | insert _ hok => exact (UploadRequest.insertOwnMetadata_ok hok).1.other dpId hdp
  | store _ hok => exact (Upload.setReady_ok hok).1.other dpId hdp
  | lock =>
    rw [Database.lock_eq]
    rfl
  | _ => rfl

/-- Committing the encoding size and the state `ready` moves a task on like this. -/
def UploadTaskPhase.afterReady : UploadTaskPhase → Option UploadTaskPhase
  | .sizeChecked => some .rawReady
  | .metadataInserted => some .pulled
  | _ => none

inductive UploadTaskStep (settings : Settings) (db : Database) (t : UploadTask) :
    Action → Database → UploadTaskPhase → List Schedule → Prop
  | storeEncodings (h : t.phase = .handleRawUpload) :
      UploadTaskStep settings db t .proceed db .encodingsStored []
  | checkSize (h : t.phase = .encodingsStored) {phase : UploadTaskPhase}
      (hphase : phase = .sizeChecked ∨ phase = .invalidSize) :
      UploadTaskStep settings db t .proceed db phase []
  | invalidate {db' : Database} (h : t.phase = .invalidSize)
      (hok : db.invalidateUpload t.upload.dpId = .ok db') :
      UploadTaskStep settings db t .proceed db' .sizeChecked []
  | setReady {db' : Database} {phase : UploadTaskPhase} (h : t.phase.afterReady = some phase)
      (hok : t.upload.setReady db = .ok db') : UploadTaskStep settings db t .proceed db' phase []
  | insertReady {db' : Database} (h : t.phase = .pullExternalData true)
      (hok : t.upload.insertReady db = .ok db') :
      UploadTaskStep settings db t .proceed db' .pulled []
  | insertMetadata {db' : Database} (h : t.phase = .pullExternalData false)
      (hok : t.upload.insertSizedMetadata db = .ok db') :
      UploadTaskStep settings db t .proceed db' .metadataInserted []
  | checkReady (h : t.phase = .rawReady) {ready : Bool}
      (hready : db.clksUploadedToProject t.upload.projectId true = .ok ready) :
      UploadTaskStep settings db t .proceed db (if ready then .allReady else .ended) []
  | checkUploaded (h : t.phase = .pulled) {uploaded : Bool}
      (huploaded : db.clksUploadedToProject t.upload.projectId false = .ok uploaded) :
      UploadTaskStep settings db t .proceed db (if uploaded then .allUploaded else .ended) []
  | notify (h : t.phase = .allReady ∨ t.phase = .allUploaded) :
      UploadTaskStep settings db t .proceed db .ended [.checkForExecutableRuns t.upload.projectId]
  | recordError (h : t.phase = .handleUploadError) :
      UploadTaskStep settings db t .proceed
        (db.updateUploadState t.upload.dpId t.upload.receiptToken .error) .ended []
  | fail (h : t.phase ≠ .ended) : UploadTaskStep settings db t .raise db .ended t.errorCallback

theorem uploadTaskStep_of_step {settings : Settings} {t : UploadTask} {db db' : Database}
    {a : Action} {phase : UploadTaskPhase} {schedules : List Schedule}
    (h : t.step settings db a = some (db', phase, schedules)) :
    UploadTaskStep settings db t a db' phase schedules := by
  cases a with
  | problem | schedule | header | overLimit => cases h
  | raise =>
    obtain ⟨r, hr, he⟩ := Option.map_eq_some_iff.mp h
    cases he
    unfold UploadTask.raise at hr
    split at hr
    case h_1 => cases hr
    case h_2 hended =>
      cases hr
      exact .fail hended
  | proceed =>
    change t.proceed settings db = _ at h
    unfold UploadTask.proceed at h
    split at h
    case h_1 hphase =>
      cases h
      exact .storeEncodings hphase
    case h_2 hphase =>
      split_ifs at h
      · cases h
        exact .checkSize hphase (.inl rfl)
      · cases h
        exact .checkSize hphase (.inr rfl)
    case h_3 hphase =>
      obtain ⟨db'', hok, he⟩ := Option.map_eq_some_iff.mp h
      cases he
      exact .invalidate hphase (committed_eq_some.mp hok)
    case h_4 hphase =>
      obtain ⟨db'', hok, he⟩ := Option.map_eq_some_iff.mp h
      cases he
      exact .setReady (by rw [hphase]; rfl) (committed_eq_some.mp hok)
    case h_5 hphase =>
      obtain ⟨ready, hok, he⟩ := Option.map_eq_some_iff.mp h
      cases he
      exact .checkReady hphase (committed_eq_some.mp hok)
    case h_6 hphase =>
      cases h
      exact .notify (.inl hphase)
    case h_7 hphase =>
      obtain ⟨db'', hok, he⟩ := Option.map_eq_some_iff.mp h
      cases he
      exact .insertReady hphase (committed_eq_some.mp hok)
    case h_8 hphase =>
      obtain ⟨db'', hok, he⟩ := Option.map_eq_some_iff.mp h
      cases he
      exact .insertMetadata hphase (committed_eq_some.mp hok)
    case h_9 hphase =>
      obtain ⟨db'', hok, he⟩ := Option.map_eq_some_iff.mp h
      cases he
      exact .setReady (by rw [hphase]; rfl) (committed_eq_some.mp hok)
    case h_10 hphase =>
      obtain ⟨uploaded, hok, he⟩ := Option.map_eq_some_iff.mp h
      cases he
      exact .checkUploaded hphase (committed_eq_some.mp hok)
    case h_11 hphase =>
      cases h
      exact .notify (.inr hphase)
    case h_12 hphase =>
      cases h
      exact .recordError hphase
    case h_13 => cases h

end EntityService.Service
