import EntityService.Database.SizeVerdict
import EntityService.Service.UploadSlot

/-! The readiness of a project. It is exact in every state as long as no provider gets a second
row in the table of uploads, which a retry after a failed upload would insert. -/
namespace EntityService.Service
open Lib

/-- The provider for which a step inserts a row in the table of uploads. -/
def insertsFor (s : Server) : Process → Action → Option DpId
  | .request r, .proceed =>
    if r.phase = .locked ∧ r.route ≠ .objectStore ∧ r.route ≠ .objectStoreAndBlocks then
      some r.upload.dpId
    else none
  | .uploadTask t, .proceed =>
    match t.phase with
    | .pullExternalData _ => some t.upload.dpId
    | .handleUploadError =>
      if t.upload.receiptToken ∈ s.db.uploads.map UploadRow.token then none
      else some t.upload.dpId
    | _ => none
  | _, _ => none

/-- A row is inserted only for a provider that has none. -/
def insertsOnce (s : Server) (t : Process) (a : Action) : Bool :=
  (insertsFor s t a).all fun dpId => s.db.uploadsOf dpId = []

/-- The test whether a project is ready is exact, and the parties are not over-counted. -/
structure ReadinessExact (db : Database) (projectId : ProjectId) : Prop where
  ready : db.clksUploadedToProject projectId true = .ok true ↔
    ∀ d ∈ db.dataproviders, d.project = projectId →
      d.uploaded = .done ∧ ∃ u ∈ db.uploads, u.dp = d.id ∧ u.state = .ready
  uploaded : ∀ row, db.findProject projectId = some row →
    db.getNumberPartiesUploaded projectId ≤ row.parties

theorem readinessExact_of_singleUploads {db : Database} {projectId : ProjectId}
    (hsingle : db.SingleUploads) (hcomplete : db.Complete projectId) :
    ReadinessExact db projectId := by
  constructor
  · rw [Database.clksUploadedToProject_iff (hsingle.of_project projectId) hcomplete]
    simp only [Database.parties, List.mem_filter, decide_eq_true_eq, and_imp,
      Database.mem_uploadsOf, and_assoc, forall_const]
  · intro row hrow
    obtain ⟨row', hrow', hparties⟩ := hcomplete
    obtain rfl := Option.some.inj (hrow.symm.trans hrow')
    rw [Database.getNumberPartiesUploaded_eq, hparties]
    exact Database.contributed_le (hsingle.of_project projectId)

/-- The columns of a project that no update changes. -/
def fixedColumns (r : ProjectRow) : ProjectRow := { r with encodingSize := none }

section Step
variable {settings : Settings} {s s' : Server} {t t' : Process} {a : Action}
  {started : List Process}

theorem fixedColumns_setProjectEncodingSize (db : Database) (projectId p : ProjectId) (size : ℤ) :
    ((db.setProjectEncodingSize projectId size).findProject p).map fixedColumns =
      (db.findProject p).map fixedColumns := by
  rw [Database.findProject_setProjectEncodingSize, Option.map_map]
  refine Option.map_congr fun r _ => ?_
  by_cases hp : p = projectId <;> simp [hp, fixedColumns]

theorem findProject_of_changesUploads {db db' : Database} {dpId : DpId}
    (h : db.ChangesUploads dpId db') (p : ProjectId) : db'.findProject p = db.findProject p := by
  unfold Database.findProject
  rw [h.projects]

/-- The tables change like this in a step that may insert an upload of one provider. -/
def TablesChange (db : Database) (inserted : Option DpId) (db' : Database) : Prop :=
  (∀ p, (db'.findProject p).map fixedColumns = (db.findProject p).map fixedColumns) ∧
    ∀ d, (db'.uploadsOf d).length = (db.uploadsOf d).length + if inserted = some d then 1 else 0

theorem TablesChange.refl (db : Database) : TablesChange db none db :=
  ⟨fun _ => rfl, fun _ => by simp⟩

theorem TablesChange.of_uploads {db db' : Database} (hprojects : db'.projects = db.projects)
    (huploads : db'.uploads = db.uploads) : TablesChange db none db' := by
  refine ⟨fun p => ?_, fun d => ?_⟩
  · rw [Database.findProject, hprojects]
    rfl
  · simp [Database.uploadsOf, huploads]

theorem TablesChange.of_update {db db' : Database} {dpId : DpId} (h : db.ChangesUploads dpId db')
    (hlength : (db'.uploadsOf dpId).length = (db.uploadsOf dpId).length) :
    TablesChange db none db' := by
  refine ⟨fun p => by rw [findProject_of_changesUploads h], fun d => ?_⟩
  by_cases hd : d = dpId
  · simp [hd, hlength]
  · simp [h.other d hd]

theorem TablesChange.of_insert {db db' : Database} {dpId : DpId} (h : db.ChangesUploads dpId db')
    (hlength : (db'.uploadsOf dpId).length = (db.uploadsOf dpId).length + 1) :
    TablesChange db (some dpId) db' := by
  refine ⟨fun p => by rw [findProject_of_changesUploads h], fun d => ?_⟩
  by_cases hd : d = dpId
  · simp [hd, hlength]
  · simp [h.other d hd, Ne.symm hd]

theorem tables_requestStep {r : UploadRequest} {db : Database} {phase : RequestPhase}
    {schedules : List Schedule} (h : RequestStep s.db r a db phase schedules) :
    TablesChange s.db (insertsFor s (.request r) a) db := by
  -- only a request that has just locked its provider inserts a row
  have hnone : r.phase ≠ .locked → insertsFor s (.request r) a = none := by
    intro hphase
    unfold insertsFor
    split
    case h_1 hr => cases hr; simp [hphase]
    case h_2 hr => cases hr
    case h_3 => rfl
  have hraise : a = .raise ∨ a = .problem → insertsFor s (.request r) a = none := by
    rintro (rfl | rfl) <;> rfl
  cases h with
  | insert h hok hroute =>
    obtain ⟨hchanges, row, f, -, -, hrows⟩ := UploadRequest.insertOwnMetadata_ok hok
    have hinserts : insertsFor s (.request r) .proceed = some r.upload.dpId := by
      simp [insertsFor, h, hroute]
    rw [hinserts]
    exact .of_insert hchanges (by simp [hrows])
  | delegate h withBlocks hroute =>
    have hinserts : insertsFor s (.request r) .proceed = none := by
      cases withBlocks <;> simp [insertsFor, h, hroute]
    rw [hinserts]
    exact .refl s.db
  | store h hok =>
    obtain ⟨hchanges, hrows⟩ := Upload.setReady_ok hok
    rw [hnone (by simp [h])]
    exact .of_update hchanges (by simp [hrows])
  | lock h =>
    rw [hnone (by simp [h]), Database.lock_eq]
    exact .of_uploads rfl rfl
  | setDone h | reset h =>
    rw [hnone (by simp [h])]
    exact .of_uploads rfl rfl
  | fail ha | abort ha =>
    rw [hraise ha]
    exact .refl s.db
  | _ h =>
    rw [hnone (by simp [h])]
    exact .refl s.db

theorem tables_uploadTaskStep {t : UploadTask} {db : Database} {phase : UploadTaskPhase}
    {schedules : List Schedule} (h : UploadTaskStep settings s.db t a db phase schedules) :
    TablesChange s.db (insertsFor s (.uploadTask t) a) db := by
  cases h with
  | invalidate h hok =>
    obtain ⟨hchanges, hrows⟩ := Database.changesUploads_invalidateUpload hok
    simp only [insertsFor, h]
    exact .of_update hchanges (by simp [hrows])
  | setReady h hok =>
    obtain ⟨hchanges, hrows⟩ := Upload.setReady_ok hok
    have hinserts : insertsFor s (.uploadTask t) .proceed = none := by
      unfold insertsFor
      dsimp only
      split
      case h_1 hphase => rw [hphase] at h; cases h
      case h_2 hphase => rw [hphase] at h; cases h
      case h_3 => rfl
    rw [hinserts]
    exact .of_update hchanges (by simp [hrows])
  | insertReady h hok =>
    obtain ⟨hchanges, hrows⟩ := Upload.insertReady_ok hok
    simp only [insertsFor, h]
    exact .of_insert hchanges (by simp [hrows])
  | insertMetadata h hok =>
    obtain ⟨hchanges, hrows⟩ := Upload.insertSizedMetadata_ok hok
    simp only [insertsFor, h]
    exact .of_insert hchanges (by simp [hrows])
  | recordError h =>
    simp only [insertsFor, h]
    rcases Database.updateUploadState_cases s.db t.upload.dpId t.upload.receiptToken .error with
      ⟨htoken, hrows⟩ | ⟨htoken, hchanges, hrows⟩
    · rw [if_pos htoken]
      refine ⟨fun p => ?_, fun d => by simp [hrows]⟩
      rw [Database.updateUploadState, if_pos htoken]
      rfl
    · rw [if_neg htoken]
      exact .of_insert hchanges (by simp [hrows])
  | notify h =>
    rcases h with h | h
    all_goals
      simp only [insertsFor, h]
      exact .refl s.db
  | fail h => exact .refl s.db
  | _ h =>
    simp only [insertsFor, h]
    exact .refl s.db

/-- How a step changes the projects and the uploads: it changes the size of a project at most,
and it inserts at most one upload. -/
theorem tables_step (hstep : ServiceStep settings s t a s' t' started) :
    TablesChange s.db (insertsFor s t a) s'.db := by
  cases hstep with
  | request h => exact tables_requestStep h
  | uploadTask h => exact tables_uploadTaskStep h
  | post h => exact db_postStep h ▸ .refl s.db
  | check h =>
    cases h with
    | invalidate _ hok =>
      obtain ⟨hchanges, hrows⟩ := Database.changesUploads_invalidateUpload hok
      exact .of_update hchanges (by simp [hrows])
    | @commit check =>
      rw [db_commit]
      cases check.setSize with
      | none => exact .refl s.db
      | some => exact ⟨fun p => fixedColumns_setProjectEncodingSize _ _ p _, fun d => rfl⟩
    | _ => exact .refl s.db
  | runTask h => exact db_runTaskStep h ▸ .refl s.db

/-- The number of parties of a project and its data providers stay as they are. -/
theorem complete_step (hstep : ServiceStep settings s t a s' t' started) {projectId : ProjectId}
    (h : s.db.Complete projectId) : s'.db.Complete projectId := by
  obtain ⟨row, hrow, hparties⟩ := h
  have hproject := (tables_step hstep).1 projectId
  rw [hrow, Option.map_some, Option.map_eq_some_iff] at hproject
  obtain ⟨row', hrow', hfixed⟩ := hproject
  have hlength : ∀ db : Database, (db.parties projectId).length =
      db.providerKeys.countP fun k => k.2 = projectId := by
    intro db
    rw [Database.providerKeys, List.countP_map, List.countP_eq_length_filter]
    rfl
  refine ⟨row', hrow', ?_⟩
  rw [hlength, providerKeys_step hstep, ← hlength, ← hparties]
  have hsame := congrArg ProjectRow.parties hfixed
  exact hsame

end Step

section Reaches
variable {settings : Settings} {p₀ p : Pool Server Process} {projectId : ProjectId}

theorem complete_of_reaches (hcomplete : p₀.shared.db.Complete projectId)
    (h : Pool.Reaches (service settings) p₀ p) : p.shared.db.Complete projectId := by
  refine h.invariant (I := fun p => p.shared.db.Complete projectId) hcomplete ?_
  rintro s before t after a s' t' started - hcomplete hprogram
  exact complete_step (serviceStep_of_step hprogram) hcomplete

theorem singleUploads_of_reaches (hsingle : p₀.shared.db.SingleUploads)
    (h : Pool.Reaches ((service settings).restrict insertsOnce) p₀ p) :
    p.shared.db.SingleUploads := by
  refine h.invariant (I := fun p => p.shared.db.SingleUploads) hsingle ?_
  rintro s before t after a s' t' started - hsingle hprogram d
  obtain ⟨honce, hprogram⟩ := Program.restrict_eq_some.mp hprogram
  have hlength := (tables_step (serviceStep_of_step hprogram)).2 d
  split_ifs at hlength with hinserts
  · have hnil : s.db.uploadsOf d = [] := by
      rw [insertsOnce, hinserts] at honce
      simpa using honce
    rw [hlength, hnil]
    exact le_rfl
  · rw [hlength]
    exact hsingle d

/-- In a run that inserts no second upload of a provider, the readiness is exact at all times. -/
theorem readinessExact_of_insertsOnce (hcomplete : p₀.shared.db.Complete projectId)
    (hsingle : p₀.shared.db.SingleUploads)
    (h : Pool.Reaches ((service settings).restrict insertsOnce) p₀ p) :
    ReadinessExact p.shared.db projectId :=
  readinessExact_of_singleUploads (singleUploads_of_reaches hsingle h)
    (complete_of_reaches hcomplete h.of_restrict)

end Reaches

theorem complete_newServer : newServer.db.Complete "p" := ⟨_, rfl, rfl⟩

theorem singleUploads_newServer : newServer.db.SingleUploads := fun _ => Nat.zero_le 1

/-- One binary upload of either data provider of a project, of which the first fails. -/
theorem readinessExact_failedUpload : ∃ p,
    Pool.Reaches ((service Tasks.defaultSettings).restrict insertsOnce) twoRequests p ∧
      p.shared.db.uploadedState 1 = some .error ∧ ReadinessExact p.shared.db "p" := by
  have hrun : (twoRequests.run ((service Tasks.defaultSettings).restrict insertsOnce)
      [(0, .proceed), (0, .proceed), (0, .raise), (0, .proceed)]).any
        fun p => p.shared.db.uploadedState 1 = some .error := by
    decide
  obtain ⟨p, hp, herror⟩ := (Option.any_eq_true _ _).mp hrun
  have hreaches := Pool.reaches_of_run hp
  exact ⟨p, hreaches, of_decide_eq_true herror,
    readinessExact_of_insertsOnce complete_newServer singleUploads_newServer hreaches⟩

/-- An upload that fails once its metadata is committed, and its retry. -/
def retriedUpload : Pool Server Process where
  shared := newServer
  processes := [.request ⟨smallUpload "p" 1 "x", .binaryclks, .received⟩,
    .request ⟨smallUpload "p" 1 "y", .binaryclks, .received⟩]

/-- After the retry the one provider counts for both parties. -/
theorem not_readinessExact_retriedUpload : ∃ p,
    Pool.Reaches (service Tasks.defaultSettings) retriedUpload p ∧
      p.shared.db.clksUploadedToProject "p" true = .ok true ∧
      (∃ d ∈ p.shared.db.dataproviders, d.project = "p" ∧ d.uploaded = .notStarted) ∧
      ¬ ReadinessExact p.shared.db "p" := by
  have hrun : (retriedUpload.run (service Tasks.defaultSettings)
      [(0, .proceed), (0, .proceed), (0, .raise), (0, .proceed), (1, .proceed), (1, .proceed),
        (1, .proceed), (1, .proceed), (1, .proceed)]).any fun p =>
          committed (p.shared.db.clksUploadedToProject "p" true) = some true ∧
            ∃ d ∈ p.shared.db.dataproviders, d.project = "p" ∧ d.uploaded = .notStarted := by
    decide
  obtain ⟨p, hp, hcheck⟩ := (Option.any_eq_true _ _).mp hrun
  obtain ⟨hready, d, hd, hproject, hstate⟩ := of_decide_eq_true hcheck
  rw [committed_eq_some] at hready
  refine ⟨p, Pool.reaches_of_run hp, hready, ⟨d, hd, hproject, hstate⟩, fun h => ?_⟩
  have hdone := (h.ready.mp hready d hd hproject).1
  rw [hstate] at hdone
  cases hdone

end EntityService.Service
