import EntityService.Service.Readiness

/-! The encoding size of an upload is fixed once the upload is ready, as long as no data provider
of the project gets a second upload. -/
namespace EntityService.Service
open Lib

/-- A row is inserted only for a data provider of the project that has none. -/
def uploadsOnce (projectId : ProjectId) (s : Server) (t : Process) (a : Action) : Bool :=
  (insertsFor s t a).all fun dpId =>
    (dpId, projectId) ∈ s.db.providerKeys → s.db.uploadsOf dpId = []

/-- The upload of the task has a row and is not ready yet. -/
def UploadTaskPhase.Storing : UploadTaskPhase → Bool
  | .handleRawUpload | .encodingsStored | .invalidSize | .sizeChecked | .metadataInserted => true
  | _ => false

/-- The process has inserted the upload of the provider and will set its encoding size. -/
def storesFor (dpId : DpId) : Process → ℕ
  | .request r => if r.upload.dpId = dpId ∧ r.phase = .inserted then 1 else 0
  | .uploadTask t => if t.upload.dpId = dpId ∧ t.phase.Storing = true then 1 else 0
  | _ => 0

def readyUploads (db : Database) (dpId : DpId) : ℕ :=
  (db.uploadsOf dpId).countP fun u => u.state = .ready

def uploadedSizes (db : Database) (dpId : DpId) : List (Option ℤ) :=
  (db.uploadsOf dpId).map UploadRow.encodingSize

/-- What a step does to the uploads of a provider and to those that are being stored for it. -/
inductive StoreStep (dpId : DpId) (s : Server) (t : Process) (a : Action) (s' : Server)
    (t' : Process) (started : List Process) : Prop
  | insert (hinserts : insertsFor s t a = some dpId)
      (hstores : storesFor dpId t' + (started.map (storesFor dpId)).sum +
        readyUploads s'.db dpId ≤ storesFor dpId t + (s.db.uploadsOf dpId).length + 1)
  | store (hstores : storesFor dpId t' + (started.map (storesFor dpId)).sum + 1 ≤ storesFor dpId t)
  | keep (hstores : storesFor dpId t' + (started.map (storesFor dpId)).sum ≤ storesFor dpId t)
      (hready : readyUploads s'.db dpId ≤ readyUploads s.db dpId)
      (hsizes : uploadedSizes s'.db dpId = uploadedSizes s.db dpId)

theorem readyUploads_le (db : Database) (dpId : DpId) :
    readyUploads db dpId ≤ (db.uploadsOf dpId).length := List.countP_le_length

section Step
variable {settings : Settings} {s s' : Server} {t t' : Process} {a : Action}
  {started : List Process}

theorem storesFor_schedules {dpId d : DpId} {schedules : List Schedule}
    (h : ∀ upload, .handleRawUpload upload ∈ schedules → upload.dpId = d) (hd : d ≠ dpId) :
    ((schedules.map Schedule.process).map (storesFor dpId)).sum = 0 := by
  refine List.sum_eq_zero fun n hn => ?_
  obtain ⟨u, hu, rfl⟩ := List.mem_map.mp hn
  obtain ⟨schedule, hmem, rfl⟩ := List.mem_map.mp hu
  cases schedule with
  | handleRawUpload upload =>
    have hne : upload.dpId ≠ dpId := h upload hmem ▸ hd
    simp [Schedule.process, storesFor, hne]
  | _ => simp [Schedule.process, storesFor, UploadTaskPhase.Storing]

/-- An update of the rows of a provider that makes none of them ready and keeps their sizes. -/
theorem uploads_map {db db' : Database} {dpId : DpId} {f : UploadRow → UploadRow}
    (h : db'.uploadsOf dpId = (db.uploadsOf dpId).map f)
    (hstate : ∀ u, (f u).state = .ready → u.state = .ready)
    (hsize : ∀ u, (f u).encodingSize = u.encodingSize) :
    readyUploads db' dpId ≤ readyUploads db dpId ∧
      uploadedSizes db' dpId = uploadedSizes db dpId := by
  unfold readyUploads uploadedSizes
  rw [h, List.countP_map, List.map_map]
  refine ⟨List.countP_mono_left fun u _ hu => ?_, List.map_congr_left fun u _ => hsize u⟩
  exact decide_eq_true (hstate u (of_decide_eq_true hu))

theorem uploads_congr {db db' : Database} {dpId : DpId}
    (h : db'.uploadsOf dpId = db.uploadsOf dpId) : readyUploads db' dpId ≤ readyUploads db dpId ∧
      uploadedSizes db' dpId = uploadedSizes db dpId := by
  unfold readyUploads uploadedSizes
  rw [h]
  exact ⟨le_rfl, rfl⟩

theorem storeStep_request {r : UploadRequest} {db : Database} {phase : RequestPhase}
    {schedules : List Schedule} (h : RequestStep s.db r a db phase schedules) (dpId : DpId) :
    StoreStep dpId s (.request r) a { s with db := db } (.request { r with phase := phase })
      (schedules.map Schedule.process) := by
  by_cases hdp : r.upload.dpId = dpId
  · subst hdp
    cases h with
    | insert h hok hroute =>
      refine .insert (by simp [insertsFor, h, hroute]) ?_
      have hready : readyUploads db r.upload.dpId ≤ (s.db.uploadsOf r.upload.dpId).length := by
        obtain ⟨-, row, f, hf, hpending, hrows⟩ := UploadRequest.insertOwnMetadata_ok hok
        unfold readyUploads
        rw [hrows, List.countP_map, List.countP_append]
        simp [hf, hpending, List.countP_le_length]
      simp only [storesFor, h, reduceCtorEq, and_false, if_false, true_and, if_true,
        List.map_nil, List.sum_nil]
      omega
    | delegateRaw h =>
      exact .keep (by simp [storesFor, h, Schedule.process, UploadTaskPhase.Storing]) le_rfl rfl
    | store h => exact .store (by simp [storesFor, h])
    | lock h =>
      rw [Database.lock_eq]
      exact .keep (by simp [storesFor, h]) le_rfl rfl
    | delegate h withBlocks =>
      exact .keep (by simp [storesFor, h, Schedule.process, UploadTaskPhase.Storing]) le_rfl rfl
    | check h =>
      refine .keep ?_ le_rfl rfl
      split_ifs <;> simp [storesFor, h]
    | fail | abort => exact .keep (by simp [storesFor]) le_rfl rfl
    | _ h =>
      exact .keep (by simp [storesFor, h, Schedule.process]) le_rfl rfl
  · have hrows := uploadsOf_requestStep h (Ne.symm hdp)
    have hstarted : ((schedules.map Schedule.process).map (storesFor dpId)).sum = 0 := by
      refine storesFor_schedules (fun upload hmem => ?_) hdp
      cases h <;> simp at hmem
      exact hmem ▸ rfl
    obtain ⟨hready, hsizes⟩ := uploads_congr hrows
    exact .keep (by rw [hstarted]; simp [storesFor, hdp]) hready hsizes

theorem storeStep_uploadTask {t : UploadTask} {db : Database} {phase : UploadTaskPhase}
    {schedules : List Schedule} (h : UploadTaskStep settings s.db t a db phase schedules)
    (dpId : DpId) : StoreStep dpId s (.uploadTask t) a { s with db := db }
      (.uploadTask { t with phase := phase }) (schedules.map Schedule.process) := by
  have hlength : readyUploads db dpId ≤ (db.uploadsOf dpId).length := readyUploads_le db dpId
  have hstarted : ((schedules.map Schedule.process).map (storesFor dpId)).sum = 0 := by
    refine List.sum_eq_zero fun n hn => ?_
    obtain ⟨u, hu, rfl⟩ := List.mem_map.mp hn
    obtain ⟨schedule, hmem, rfl⟩ := List.mem_map.mp hu
    cases schedule with
    | handleRawUpload upload =>
      cases h with
      | fail =>
        unfold UploadTask.errorCallback at hmem
        split at hmem <;> simp at hmem
      | _ => simp at hmem
    | _ => simp [Schedule.process, storesFor, UploadTaskPhase.Storing]
  by_cases hdp : t.upload.dpId = dpId
  · subst hdp
    cases h with
    | storeEncodings h =>
      exact .keep (by simp [storesFor, h, UploadTaskPhase.Storing]) le_rfl rfl
    | checkSize h hphase =>
      refine .keep ?_ le_rfl rfl
      rcases hphase with rfl | rfl <;> simp [storesFor, h, UploadTaskPhase.Storing]
    | invalidate h hok =>
      obtain ⟨hready, hsizes⟩ := uploads_map (Database.changesUploads_invalidateUpload hok).2
        (by simp) fun _ => rfl
      exact .keep (by simp [storesFor, h, UploadTaskPhase.Storing]) hready hsizes
    | @setReady _ phase h hok =>
      refine .store ?_
      cases hphase : t.phase <;> rw [hphase] at h <;> cases h <;>
        simp [storesFor, hphase, UploadTaskPhase.Storing]
    | insertReady h hok =>
      refine .insert (by simp [insertsFor, h]) ?_
      rw [(Upload.insertReady_ok hok).2] at hlength
      simp only [List.length_map, List.length_append, List.length_singleton] at hlength
      simp only [storesFor, h, UploadTaskPhase.Storing]
      simpa using hlength
    | insertMetadata h hok =>
      refine .insert (by simp [insertsFor, h]) ?_
      have hready : readyUploads db t.upload.dpId ≤ (s.db.uploadsOf t.upload.dpId).length := by
        unfold readyUploads
        rw [(Upload.insertSizedMetadata_ok hok).2, List.countP_map, List.countP_append]
        simp [Upload.row, List.countP_le_length]
      simp only [storesFor, h, UploadTaskPhase.Storing, Bool.false_eq_true, and_false, if_false,
        and_self, if_true, List.map_nil, List.sum_nil]
      omega
    | recordError h =>
      rcases Database.updateUploadState_cases s.db t.upload.dpId t.upload.receiptToken .error with
        ⟨-, hrows⟩ | ⟨htoken, -, hrows⟩
      · obtain ⟨hready, hsizes⟩ := uploads_map (hrows t.upload.dpId)
          (fun u => by split_ifs <;> simp) fun u => by split_ifs <;> rfl
        exact .keep (by simp [storesFor, UploadTaskPhase.Storing]) hready hsizes
      · refine .insert (by simp [insertsFor, h, htoken]) ?_
        rw [hrows, List.length_append, List.length_singleton] at hlength
        simp only [storesFor, h, UploadTaskPhase.Storing]
        simpa using hlength
    | checkReady h | checkUploaded h =>
      refine .keep ?_ le_rfl rfl
      split_ifs <;> simp [storesFor, h, UploadTaskPhase.Storing]
    | notify h =>
      refine .keep ?_ le_rfl rfl
      rw [hstarted]
      simp [storesFor, UploadTaskPhase.Storing]
    | fail =>
      refine .keep ?_ le_rfl rfl
      rw [hstarted]
      simp [storesFor, UploadTaskPhase.Storing]
  · have hrows : readyUploads db dpId ≤ readyUploads s.db dpId ∧
        uploadedSizes db dpId = uploadedSizes s.db dpId := by
      have hother : ∀ {db : Database}, s.db.ChangesUploads t.upload.dpId db →
          readyUploads db dpId ≤ readyUploads s.db dpId ∧
            uploadedSizes db dpId = uploadedSizes s.db dpId := fun h =>
        uploads_congr (h.other dpId (Ne.symm hdp))
      cases h with
      | invalidate _ hok => exact hother (Database.changesUploads_invalidateUpload hok).1
      | setReady _ hok => exact hother (Upload.setReady_ok hok).1
      | insertReady _ hok => exact hother (Upload.insertReady_ok hok).1
      | insertMetadata _ hok => exact hother (Upload.insertSizedMetadata_ok hok).1
      | recordError =>
        rcases Database.updateUploadState_cases s.db t.upload.dpId t.upload.receiptToken .error with
          ⟨-, hrows⟩ | ⟨-, hchanges, -⟩
        · exact uploads_map (hrows dpId) (fun u => by split_ifs <;> simp)
            fun u => by split_ifs <;> rfl
        · exact hother hchanges
      | _ => exact ⟨le_rfl, rfl⟩
    exact .keep (by rw [hstarted]; simp [storesFor, hdp]) hrows.1 hrows.2

theorem storeStep_of_step (hstep : ServiceStep settings s t a s' t' started) (dpId : DpId) :
    StoreStep dpId s t a s' t' started := by
  have hsame : s'.db.uploads = s.db.uploads → readyUploads s'.db dpId ≤ readyUploads s.db dpId ∧
      uploadedSizes s'.db dpId = uploadedSizes s.db dpId := fun h =>
    uploads_congr (by rw [Database.uploadsOf, h]; rfl)
  cases hstep with
  | request h => exact storeStep_request h dpId
  | uploadTask h => exact storeStep_uploadTask h dpId
  | @post p a s' phase checks h =>
    have hrows := hsame (by rw [db_postStep h])
    refine .keep ?_ hrows.1 hrows.2
    cases checks <;> simp [storesFor]
  | @check c a s' phase newRun h =>
    have hrows : readyUploads s'.db dpId ≤ readyUploads s.db dpId ∧
        uploadedSizes s'.db dpId = uploadedSizes s.db dpId := by
      cases h with
      | @invalidate check d _ db h hok =>
        obtain ⟨hchanges, hrows⟩ := Database.changesUploads_invalidateUpload hok
        by_cases hd : dpId = d
        · subst hd
          exact uploads_map hrows (by simp) fun _ => rfl
        · exact uploads_congr (hchanges.other dpId hd)
      | commit => exact hsame (uploads_commit _ _ _ _ _)
      | _ => exact hsame rfl
    refine .keep ?_ hrows.1 hrows.2
    cases newRun <;> simp [storesFor]
  | @runTask t t' a s' started h =>
    have hrows := hsame (by rw [db_runTaskStep h])
    refine .keep ?_ hrows.1 hrows.2
    have hstarted : ((started.map Process.runTask).map (storesFor dpId)).sum = 0 := by
      refine List.sum_eq_zero fun n hn => ?_
      obtain ⟨u, hu, rfl⟩ := List.mem_map.mp hn
      obtain ⟨task, -, rfl⟩ := List.mem_map.mp hu
      rfl
    rw [hstarted]
    simp [storesFor]

end Step

/-- The uploads of the project that are ready or being stored are counted by their rows, and each
data provider has one row at most. -/
def Stored (projectId : ProjectId) (p : Pool Server Process) : Prop :=
  ∀ dpId, (dpId, projectId) ∈ p.shared.db.providerKeys →
    p.total (storesFor dpId) + readyUploads p.shared.db dpId ≤
      (p.shared.db.uploadsOf dpId).length ∧ (p.shared.db.uploadsOf dpId).length ≤ 1

/-- Each data provider of the project has an upload whose encoding size is fixed. -/
def Settled (projectId : ProjectId) (p : Pool Server Process) : Prop :=
  ∀ dpId, (dpId, projectId) ∈ p.shared.db.providerKeys →
    p.total (storesFor dpId) = 0 ∧ p.shared.db.uploadsOf dpId ≠ []

section Pool
variable {settings : Settings} {projectId : ProjectId} {s s' : Server}
  {before after started : List Process} {t t' : Process} {a : Action}

theorem stored_step (honce : uploadsOnce projectId s t a)
    (hstep : ServiceStep settings s t a s' t' started)
    (h : Stored projectId ⟨s, before ++ t :: after⟩) :
    Stored projectId ⟨s', before ++ t' :: after ++ started⟩ := by
  intro dpId hkey
  dsimp only at hkey ⊢
  rw [providerKeys_step hstep] at hkey
  obtain ⟨hstored, hsingle⟩ := h dpId hkey
  dsimp only at hstored hsingle
  have htotal := Pool.total_step (storesFor dpId) s s' before after started t t'
  have hle : storesFor dpId t ≤ Pool.total (storesFor dpId) ⟨s, before ++ t :: after⟩ :=
    Pool.le_total List.mem_append_cons_self
  have hready := readyUploads_le s'.db dpId
  have hlength : (s'.db.uploadsOf dpId).length = (s.db.uploadsOf dpId).length +
      if insertsFor s t a = some dpId then 1 else 0 := (tables_step hstep).2 dpId
  have hnil : insertsFor s t a = some dpId → (s.db.uploadsOf dpId).length = 0 := by
    intro hinserts
    rw [uploadsOnce, hinserts] at honce
    simp only [Option.all_some, decide_eq_true_eq] at honce
    rw [honce hkey]
    rfl
  cases storeStep_of_step hstep dpId with
  | insert hinserts hstores =>
    have hzero := hnil hinserts
    rw [if_pos hinserts] at hlength
    constructor <;> omega
  | store hstores =>
    have hinserts : insertsFor s t a ≠ some dpId := fun h => by
      have hzero := hnil h
      omega
    rw [if_neg hinserts] at hlength
    constructor <;> omega
  | keep hstores hready' =>
    split_ifs at hlength with hinserts
    · have hzero := hnil hinserts
      constructor <;> omega
    · constructor <;> omega

/-- Once the uploads are settled, their sizes stay as they are. -/
theorem settled_step (honce : uploadsOnce projectId s t a)
    (hstep : ServiceStep settings s t a s' t' started)
    (h : Settled projectId ⟨s, before ++ t :: after⟩) :
    Settled projectId ⟨s', before ++ t' :: after ++ started⟩ ∧
      ∀ dpId, (dpId, projectId) ∈ s.db.providerKeys →
        uploadedSizes s'.db dpId = uploadedSizes s.db dpId := by
  have hboth : ∀ dpId, (dpId, projectId) ∈ s.db.providerKeys →
      Pool.total (storesFor dpId) ⟨s', before ++ t' :: after ++ started⟩ = 0 ∧
        uploadedSizes s'.db dpId = uploadedSizes s.db dpId := by
    intro dpId hkey
    obtain ⟨hzero, hrows⟩ := h dpId hkey
    have htotal := Pool.total_step (storesFor dpId) s s' before after started t t'
    have hle : storesFor dpId t ≤ Pool.total (storesFor dpId) ⟨s, before ++ t :: after⟩ :=
      Pool.le_total List.mem_append_cons_self
    cases storeStep_of_step hstep dpId with
    | insert hinserts =>
      rw [uploadsOnce, hinserts] at honce
      simp only [Option.all_some, decide_eq_true_eq] at honce
      exact absurd (honce hkey) hrows
    | store hstores => omega
    | keep hstores _ hsizes => exact ⟨by omega, hsizes⟩
  refine ⟨fun dpId hkey => ?_, fun dpId hkey => (hboth dpId hkey).2⟩
  dsimp only at hkey
  rw [providerKeys_step hstep] at hkey
  obtain ⟨hzero, hsizes⟩ := hboth dpId hkey
  refine ⟨hzero, fun hnil => ?_⟩
  dsimp only at hnil
  unfold uploadedSizes at hsizes
  rw [hnil, List.map_nil, eq_comm, List.map_eq_nil_iff] at hsizes
  exact (h dpId hkey).2 hsizes

end Pool

section Reaches
variable {settings : Settings} {p₀ p : Pool Server Process} {projectId : ProjectId}

theorem stored_of_reaches (hinit : ∀ t ∈ p₀.processes, t.Arriving)
    (hsingle : p₀.shared.db.SingleUploadsOf projectId)
    (h : Pool.Reaches ((service settings).restrict (uploadsOnce projectId)) p₀ p) :
    Stored projectId p := by
  refine h.invariant (I := Stored projectId) ?_ ?_
  · intro dpId hkey
    have hzero : p₀.total (storesFor dpId) = 0 :=
      total_eq_zero_of_arriving hinit (fun r hphase => by simp [storesFor, hphase]) fun _ => rfl
    obtain ⟨d, hd, rfl, hproject⟩ := Database.mem_providerKeys.mp hkey
    have hparty : d ∈ p₀.shared.db.parties projectId :=
      List.mem_filter.mpr ⟨hd, decide_eq_true hproject⟩
    refine ⟨?_, hsingle d hparty⟩
    rw [hzero, Nat.zero_add]
    exact readyUploads_le _ _
  · rintro s before t after a s' t' started - hstored hprogram
    obtain ⟨honce, hprogram⟩ := Program.restrict_eq_some.mp hprogram
    exact stored_step honce (serviceStep_of_step hprogram) hstored

theorem Stored.singleUploads (h : Stored projectId p) :
    p.shared.db.SingleUploadsOf projectId := by
  intro d hd
  obtain ⟨hmem, hproject⟩ := List.mem_filter.mp hd
  exact (h d.id (Database.mem_providerKeys.mpr ⟨d, hmem, rfl, of_decide_eq_true hproject⟩)).2

theorem settled_of_ready (hstored : Stored projectId p)
    (hcomplete : p.shared.db.Complete projectId)
    (hready : p.shared.db.clksUploadedToProject projectId true = .ok true) :
    Settled projectId p := by
  rw [Database.clksUploadedToProject_iff hstored.singleUploads hcomplete] at hready
  intro dpId hkey
  obtain ⟨hle, hsingle⟩ := hstored dpId hkey
  obtain ⟨d, hd, rfl, hproject⟩ := Database.mem_providerKeys.mp hkey
  obtain ⟨-, u, hu, hstate⟩ := hready d (List.mem_filter.mpr ⟨hd, decide_eq_true hproject⟩)
  have hpos : 0 < readyUploads p.shared.db d.id :=
    List.countP_pos_iff.mpr ⟨u, hu, decide_eq_true (hstate rfl)⟩
  exact ⟨by omega, List.ne_nil_of_mem hu⟩

end Reaches
end EntityService.Service
