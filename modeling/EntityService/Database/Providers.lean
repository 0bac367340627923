import EntityService.Database.Insertions

/-! The upload states of the data providers. -/
namespace EntityService.Database

def uploadedState (db : Database) (dpId : DpId) : Option UploadedState :=
  (db.dataproviders.find? fun r => r.id = dpId).map DataproviderRow.uploaded

/-- The columns of the providers that no update changes. -/
def providerKeys (db : Database) : List (DpId × ProjectId) :=
  db.dataproviders.map fun r => (r.id, r.project)

/-- The primary key of `dataproviders` is unique. -/
def UniqueProviders (db : Database) : Prop := (db.dataproviders.map DataproviderRow.id).Nodup

instance (db : Database) : Decidable db.UniqueProviders :=
  inferInstanceAs (Decidable (db.dataproviders.map DataproviderRow.id).Nodup)

theorem mem_providerKeys {db : Database} {dpId : DpId} {projectId : ProjectId} :
    (dpId, projectId) ∈ db.providerKeys ↔
      ∃ d ∈ db.dataproviders, d.id = dpId ∧ d.project = projectId := by
  simp [Database.providerKeys]

/-- The states in which `is_dataprovider_allowed_to_upload_and_lock` allows an upload. -/
def Free (state : UploadedState) : Bool := state ≠ .done ∧ state ≠ .inProgress

theorem UniqueProviders.of_keys {db db' : Database} (h : db.UniqueProviders)
    (hkeys : db'.providerKeys = db.providerKeys) : db'.UniqueProviders := by
  have hids : ∀ db : Database, db.dataproviders.map DataproviderRow.id =
      db.providerKeys.map Prod.fst := by
    intro db
    rw [providerKeys, List.map_map]
    rfl
  unfold UniqueProviders at h ⊢
  rwa [hids, hkeys, ← hids]

theorem uploadedState_of_mem {db : Database} (hkeys : db.UniqueProviders) {r : DataproviderRow}
    (hr : r ∈ db.dataproviders) : db.uploadedState r.id = some r.uploaded := by
  unfold uploadedState
  cases hfind : db.dataproviders.find? fun x => x.id = r.id with
  | none =>
    have hne := List.find?_eq_none.mp hfind r hr
    simp at hne
  | some x =>
    have hid : x.id = r.id := by simpa using List.find?_some hfind
    obtain rfl := List.inj_on_of_nodup_map hkeys (List.mem_of_find?_eq_some hfind) hr hid
    rfl

section Update
variable (db : Database) (dpId d : DpId)

theorem uploadedState_map (f : UploadedState → UploadedState) :
    ({ db with dataproviders := db.dataproviders.map fun r =>
        if r.id = dpId then { r with uploaded := f r.uploaded } else r } :
      Database).uploadedState d =
        if d = dpId then (db.uploadedState d).map f else db.uploadedState d := by
  have hid : ((fun r : DataproviderRow => decide (r.id = d)) ∘ fun r =>
      if r.id = dpId then { r with uploaded := f r.uploaded } else r) =
        fun r => decide (r.id = d) := by
    funext r
    by_cases hr : r.id = dpId <;> simp [hr]
  unfold uploadedState
  rw [List.find?_map, hid]
  cases hfind : db.dataproviders.find? fun r => r.id = d with
  | none => simp
  | some r =>
    obtain rfl : r.id = d := by simpa using List.find?_some hfind
    by_cases hr : r.id = dpId <;> simp [hr]

theorem providerKeys_map (f : UploadedState → UploadedState) :
    ({ db with dataproviders := db.dataproviders.map fun r =>
        if r.id = dpId then { r with uploaded := f r.uploaded } else r } :
      Database).providerKeys = db.providerKeys := by
  unfold providerKeys
  rw [List.map_map]
  refine List.map_congr_left fun r _ => ?_
  by_cases hr : r.id = dpId <;> simp [hr]

@[simp] theorem uploadedState_setDataproviderUploadState (state : UploadedState) :
    (db.setDataproviderUploadState dpId state).uploadedState d =
      if d = dpId then (db.uploadedState d).map fun _ => state else db.uploadedState d :=
  uploadedState_map db dpId d fun _ => state

@[simp] theorem providerKeys_setDataproviderUploadState (state : UploadedState) :
    (db.setDataproviderUploadState dpId state).providerKeys = db.providerKeys :=
  providerKeys_map db dpId fun _ => state

theorem lock_eq : (db.isDataproviderAllowedToUploadAndLock dpId).2 =
    { db with dataproviders := db.dataproviders.map fun r => if r.id = dpId then
        { r with uploaded := if Free r.uploaded then .inProgress else r.uploaded } else r } := by
  refine congrArg (fun rows => { db with dataproviders := rows })
    (List.map_congr_left fun r _ => ?_)
  by_cases hr : r.id = dpId
  · subst hr
    by_cases hf : r.uploaded ≠ .done ∧ r.uploaded ≠ .inProgress <;> simp [hf, Free]
  · simp [hr]

@[simp] theorem uploadedState_lock :
    (db.isDataproviderAllowedToUploadAndLock dpId).2.uploadedState d = if d = dpId then
      (db.uploadedState d).map fun x => if Free x then .inProgress else x
    else db.uploadedState d := by
  rw [lock_eq]
  exact uploadedState_map db dpId d fun x => if Free x then .inProgress else x

@[simp] theorem providerKeys_lock :
    (db.isDataproviderAllowedToUploadAndLock dpId).2.providerKeys = db.providerKeys := by
  rw [lock_eq]
  exact providerKeys_map db dpId fun x => if Free x then .inProgress else x

end Update

theorem free_of_lock {db : Database} (hkeys : db.UniqueProviders) {dpId : DpId}
    (h : (db.isDataproviderAllowedToUploadAndLock dpId).1 = true) :
    ∃ state, db.uploadedState dpId = some state ∧ Free state = true := by
  unfold isDataproviderAllowedToUploadAndLock at h
  obtain ⟨r, hr, hfree⟩ := List.any_eq_true.mp h
  obtain ⟨rfl, hdone, hprogress⟩ : r.id = dpId ∧ r.uploaded ≠ .done ∧ r.uploaded ≠ .inProgress := by
    simpa using hfree
  exact ⟨r.uploaded, uploadedState_of_mem hkeys hr, by simp [Free, hdone, hprogress]⟩

end EntityService.Database
