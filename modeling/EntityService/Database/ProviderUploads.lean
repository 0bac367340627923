import EntityService.Database.EncodingSizes
import EntityService.Database.Uploads

/-! The uploads of one data provider, and which of them the updates of an upload change. -/
namespace EntityService.Database
open Lib

def uploadsOf (db : Database) (dpId : DpId) : List UploadRow :=
  db.uploads.filter fun r => r.dp = dpId

/-- Only the uploads of one provider differ. -/
structure ChangesUploads (db : Database) (dpId : DpId) (db' : Database) : Prop where
  projects : db'.projects = db.projects
  dataproviders : db'.dataproviders = db.dataproviders
  other : ∀ d ≠ dpId, db'.uploadsOf d = db.uploadsOf d

theorem ChangesUploads.trans {dpId : DpId} {db db' db'' : Database}
    (h : ChangesUploads db dpId db') (h' : ChangesUploads db' dpId db'') :
    ChangesUploads db dpId db'' :=
  ⟨h'.projects.trans h.projects, h'.dataproviders.trans h.dataproviders,
    fun d hd => (h'.other d hd).trans (h.other d hd)⟩

theorem mem_uploadsOf {db : Database} {dpId : DpId} {r : UploadRow} :
    r ∈ db.uploadsOf dpId ↔ r ∈ db.uploads ∧ r.dp = dpId := by
  simp [uploadsOf]

theorem changesUploads_map (db : Database) (dpId : DpId) (f : UploadRow → UploadRow)
    (hdp : ∀ r, (f r).dp = r.dp) :
    let db' : Database :=
      { db with uploads := db.uploads.map fun r => if r.dp = dpId then f r else r }
    ChangesUploads db dpId db' ∧ db'.uploadsOf dpId = (db.uploadsOf dpId).map f := by
  have hsame : ∀ d, ((fun r : UploadRow => decide (r.dp = d)) ∘
      fun r => if r.dp = dpId then f r else r) = fun r => decide (r.dp = d) := by
    intro d
    funext r
    by_cases hr : r.dp = dpId <;> simp [hr, hdp]
  refine ⟨⟨rfl, rfl, fun d hd => ?_⟩, ?_⟩
  · unfold uploadsOf
    rw [List.filter_map, hsame]
    refine (List.map_congr_left fun r hr => ?_).trans (List.map_id _)
    have hr' : r.dp = d := by simpa using (List.mem_filter.mp hr).2
    rw [if_neg fun h => hd (hr'.symm.trans h), id]
  · unfold uploadsOf
    rw [List.filter_map, hsame]
    refine List.map_congr_left fun r hr => ?_
    rw [if_pos (by simpa using (List.mem_filter.mp hr).2)]

theorem uploadsOf_append (db : Database) (row : UploadRow) (d : DpId) :
    ({ db with uploads := db.uploads ++ [row] } : Database).uploadsOf d =
      if row.dp = d then db.uploadsOf d ++ [row] else db.uploadsOf d := by
  unfold uploadsOf
  rw [List.filter_append]
  split_ifs with h <;> simp [h]

theorem changesUploads_append (db : Database) (row : UploadRow) :
    ChangesUploads db row.dp { db with uploads := db.uploads ++ [row] } :=
  ⟨rfl, rfl, fun d hd => (uploadsOf_append db row d).trans (if_neg hd.symm)⟩

section Insert
variable {db db' : Database} {file : Option FileName} {dpId : DpId} {token : Token}
  {count blockCount : ℤ}

theorem changesUploads_insertEncodingMetadata
    (h : db.insertEncodingMetadata file dpId token count blockCount = .ok db') :
    ChangesUploads db dpId db' ∧ db'.uploadsOf dpId =
      db.uploadsOf dpId ++ [⟨dpId, token, file, .pending, none, count, blockCount⟩] := by
  obtain ⟨-, -, rfl⟩ := insertEncodingMetadata_eq_ok.mp h
  exact ⟨changesUploads_append db ⟨dpId, token, file, .pending, none, count, blockCount⟩,
    (uploadsOf_append _ _ _).trans (if_pos rfl)⟩

end Insert

section Update
variable {db db' : Database} {dpId : DpId}

theorem changesUploads_setEncodingSize {size : ℤ}
    (h : db.updateEncodingMetadataSetEncodingSize dpId size = .ok db') :
    ChangesUploads db dpId db' ∧ db'.uploadsOf dpId =
      (db.uploadsOf dpId).map fun r => { r with encodingSize := some size } := by
  obtain ⟨-, rfl⟩ := updateEncodingMetadataSetEncodingSize_eq_ok.mp h
  exact changesUploads_map db dpId (fun r => { r with encodingSize := some size }) fun _ => rfl

theorem changesUploads_updateEncodingMetadata (db : Database) (dpId : DpId)
    (file : Option FileName) (state : ProcessedState) :
    ChangesUploads db dpId (db.updateEncodingMetadata file dpId state) ∧
      (db.updateEncodingMetadata file dpId state).uploadsOf dpId =
        (db.uploadsOf dpId).map fun r => { r with state := state, file := file } :=
  changesUploads_map db dpId (fun r => { r with state := state, file := file }) fun _ => rfl

theorem exists_invalidateUpload (h : db.uploadsOf dpId ≠ []) :
    ∃ db', db.invalidateUpload dpId = .ok db' := by
  obtain ⟨r, hr⟩ := List.exists_mem_of_ne_nil _ h
  obtain ⟨hmem, hdp⟩ := mem_uploadsOf.mp hr
  obtain ⟨row, hrow⟩ : ∃ row, db.uploads.find? (fun r => r.dp = dpId) = some row := by
    rw [← Option.isSome_iff_exists, List.find?_isSome]
    exact ⟨r, hmem, decide_eq_true hdp⟩
  refine ⟨db.updateEncodingMetadata (some "DELETED") dpId .error, ?_⟩
  simp [invalidateUpload, hrow, orRaise]

theorem changesUploads_invalidateUpload (h : db.invalidateUpload dpId = .ok db') :
    ChangesUploads db dpId db' ∧ db'.uploadsOf dpId =
      (db.uploadsOf dpId).map fun r => { r with state := .error, file := some "DELETED" } := by
  unfold invalidateUpload at h
  obtain ⟨_, -, h⟩ := bind_eq_ok.mp h
  cases h
  exact changesUploads_updateEncodingMetadata db dpId _ _

end Update

/-- Recording a failed upload inserts a row only for a token that has none. -/
theorem updateUploadState_cases (db : Database) (dpId : DpId) (token : Token)
    (state : ProcessedState) :
    (token ∈ db.uploads.map UploadRow.token ∧
      ∀ d, (db.updateUploadState dpId token state).uploadsOf d = (db.uploadsOf d).map
        fun r => if r.token = token then { r with state := state } else r) ∨
    (token ∉ db.uploads.map UploadRow.token ∧
      db.ChangesUploads dpId (db.updateUploadState dpId token state) ∧
      (db.updateUploadState dpId token state).uploadsOf dpId =
        db.uploadsOf dpId ++ [⟨dpId, token, none, state, none, 0, 0⟩]) := by
  unfold updateUploadState
  split_ifs with h
  · refine .inl ⟨h, fun d => ?_⟩
    have hsame : ((fun r : UploadRow => decide (r.dp = d)) ∘ fun r =>
        if r.token = token then { r with state := state } else r) = fun r => decide (r.dp = d) := by
      funext r
      by_cases hr : r.token = token <;> simp [hr]
    unfold uploadsOf
    rw [List.filter_map, hsame]
  · exact .inr ⟨h, changesUploads_append db ⟨dpId, token, none, state, none, 0, 0⟩,
      (uploadsOf_append _ _ _).trans (if_pos rfl)⟩

theorem providerUploads_eq (db : Database) (projectId : ProjectId) :
    db.providerUploads projectId = (db.dataproviders.filter fun d => d.project = projectId).flatMap
      fun d => (db.uploadsOf d.id).map fun u => (d, u) := rfl

end EntityService.Database
