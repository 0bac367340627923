import EntityService.Database.Ingested

/-! The table of uploads: what the updates of an upload change, and what they leave alone. -/
namespace EntityService.Database
open Lib

/-- The columns of the uploads that no update changes. -/
def uploadKeys (db : Database) : List (DpId × Token × ℤ × ℤ) :=
  db.uploads.map fun r => (r.dp, r.token, r.count, r.blockCount)

def ReadyUpload (db : Database) (token : Token) : Prop :=
  ∃ r ∈ db.uploads, r.token = token ∧ r.state = .ready

def FailedUpload (db : Database) (token : Token) : Prop :=
  ∃ r ∈ db.uploads, r.token = token ∧ r.state = .error

/-- The receipt token has not been used. -/
def FreshToken (db : Database) (token : Token) : Prop :=
  token ∉ db.uploads.map UploadRow.token

theorem FreshToken.not_ready {db : Database} {token : Token} (h : db.FreshToken token) :
    ¬ db.ReadyUpload token := by
  rintro ⟨r, hr, rfl, -⟩
  exact h (List.mem_map_of_mem hr)

theorem FreshToken.not_failed {db : Database} {token : Token} (h : db.FreshToken token) :
    ¬ db.FailedUpload token := by
  rintro ⟨r, hr, rfl, -⟩
  exact h (List.mem_map_of_mem hr)

/-- The upload that was added last under a fresh token is the only one with it. -/
theorem of_uploadKeys {db db' : Database} {dpId : DpId} {token : Token} {count blockCount : ℤ}
    (h : db'.uploadKeys = db.uploadKeys ++ [(dpId, token, count, blockCount)])
    (hfresh : db.FreshToken token) {r : UploadRow} (hr : r ∈ db'.uploads) (ht : r.token = token) :
    r.dp = dpId ∧ r.count = count ∧ r.blockCount = blockCount := by
  have hm : (r.dp, r.token, r.count, r.blockCount) ∈ db'.uploadKeys := List.mem_map_of_mem hr
  rw [h, List.mem_append, List.mem_singleton] at hm
  rcases hm with hm | hm
  · obtain ⟨r', hr', he⟩ := List.mem_map.mp hm
    simp only [Prod.mk.injEq] at he
    exact absurd (List.mem_map_of_mem hr') (he.2.1.trans ht ▸ hfresh)
  · simp only [Prod.mk.injEq] at hm
    exact ⟨hm.1, hm.2.2⟩

theorem exists_of_uploadKeys {db : Database} {l : List (DpId × Token × ℤ × ℤ)} {dpId : DpId}
    {token : Token} {count blockCount : ℤ}
    (h : db.uploadKeys = l ++ [(dpId, token, count, blockCount)]) :
    ∃ r ∈ db.uploads, r.dp = dpId ∧ r.token = token := by
  have hm : (dpId, token, count, blockCount) ∈ db.uploadKeys := by simp [h]
  obtain ⟨r, hr, he⟩ := List.mem_map.mp hm
  simp only [Prod.mk.injEq] at he
  exact ⟨r, hr, he.1, he.2.1⟩

section Insert
variable {db db' : Database} {clksFilename : Option FileName} {dpId : DpId} {token : Token}
  {encodingCount blockCount : ℤ}

theorem insertEncodingMetadata_eq_ok :
    db.insertEncodingMetadata clksFilename dpId token encodingCount blockCount = .ok db' ↔
      db.FreshToken token ∧ (Int4 encodingCount ∧ Int4 blockCount) ∧
      db' = { db with uploads := db.uploads ++
        [⟨dpId, token, clksFilename, .pending, none, encodingCount, blockCount⟩] } := by
  unfold insertEncodingMetadata FreshToken
  simp only [bind_eq_ok, ensure_eq_ok, pure_eq_ok, Except.ok.injEq, exists_const]
  exact and_congr_right fun _ => and_congr_right fun _ => eq_comm

theorem insertEncodingMetadata_ok
    (h : db.insertEncodingMetadata clksFilename dpId token encodingCount blockCount = .ok db') :
    SameData db db' ∧ db.FreshToken token ∧ ¬ db'.ReadyUpload token ∧
      db'.uploadKeys = db.uploadKeys ++ [(dpId, token, encodingCount, blockCount)] ∧
      db'.projects = db.projects ∧ db'.dataproviders = db.dataproviders := by
  obtain ⟨hfresh, -, rfl⟩ := insertEncodingMetadata_eq_ok.mp h
  refine ⟨⟨rfl, rfl, rfl, rfl⟩, hfresh, ?_, by simp [uploadKeys], rfl, rfl⟩
  rintro ⟨r, hr, ht, hs⟩
  rcases List.mem_append.mp hr with hr | hr
  · exact hfresh.not_ready ⟨r, hr, ht, hs⟩
  · cases List.mem_singleton.mp hr
    cases hs

end Insert

section Update
variable (db : Database) (dpId : DpId)

theorem sameData_updateEncodingMetadata (clksFilename : Option FileName) (state : ProcessedState) :
    SameData db (db.updateEncodingMetadata clksFilename dpId state) := ⟨rfl, rfl, rfl, rfl⟩

@[simp] theorem uploadKeys_updateEncodingMetadata (clksFilename : Option FileName)
    (state : ProcessedState) :
    (db.updateEncodingMetadata clksFilename dpId state).uploadKeys = db.uploadKeys := by
  unfold uploadKeys updateEncodingMetadata
  rw [List.map_map]
  refine List.map_congr_left fun r _ => ?_
  by_cases hr : r.dp = dpId <;> simp [hr]

theorem state_updateEncodingMetadata {clksFilename : Option FileName} {state : ProcessedState}
    {r : UploadRow} (hr : r ∈ (db.updateEncodingMetadata clksFilename dpId state).uploads)
    (hdp : r.dp = dpId) : r.state = state := by
  obtain ⟨r', -, rfl⟩ := List.mem_map.mp hr
  by_cases h : r'.dp = dpId
  · simp [h]
  · rw [if_neg h] at hdp
    exact absurd hdp h

/-- The encoding sizes of the uploads of the provider. -/
def HasSize (db : Database) (dpId : DpId) (size : ℤ) : Prop :=
  ∀ r ∈ db.uploads, r.dp = dpId → r.encodingSize = some size

theorem hasSize_updateEncodingMetadata {size : ℤ} (h : db.HasSize dpId size)
    (clksFilename : Option FileName) (state : ProcessedState) :
    (db.updateEncodingMetadata clksFilename dpId state).HasSize dpId size := by
  intro r hr hdp
  obtain ⟨r', hr', rfl⟩ := List.mem_map.mp hr
  by_cases hd : r'.dp = dpId
  · rw [if_pos hd]
    exact h r' hr' hd
  · rw [if_neg hd] at hdp
    exact absurd hdp hd

variable {db dpId} {db' : Database} {encodingSize : ℤ}

theorem updateEncodingMetadataSetEncodingSize_eq_ok :
    db.updateEncodingMetadataSetEncodingSize dpId encodingSize = .ok db' ↔
      Int4 encodingSize ∧ db' = { db with uploads := db.uploads.map fun r =>
        if r.dp = dpId then { r with encodingSize := some encodingSize } else r } := by
  unfold updateEncodingMetadataSetEncodingSize
  simp only [bind_eq_ok, ensure_eq_ok, pure_eq_ok, Except.ok.injEq, exists_const]
  exact and_congr_right fun _ => eq_comm

theorem updateEncodingMetadataSetEncodingSize_ok
    (h : db.updateEncodingMetadataSetEncodingSize dpId encodingSize = .ok db') :
    SameData db db' ∧ db'.uploadKeys = db.uploadKeys ∧
      (∀ token, db'.ReadyUpload token ↔ db.ReadyUpload token) ∧
      db'.projects = db.projects ∧ db'.dataproviders = db.dataproviders := by
  obtain ⟨-, rfl⟩ := updateEncodingMetadataSetEncodingSize_eq_ok.mp h
  refine ⟨⟨rfl, rfl, rfl, rfl⟩, ?_, fun token => ?_, rfl, rfl⟩
  · unfold uploadKeys
    rw [List.map_map]
    refine List.map_congr_left fun r _ => ?_
    by_cases hr : r.dp = dpId <;> simp [hr]
  · unfold ReadyUpload
    simp only [List.mem_map, exists_exists_and_eq_and]
    refine exists_congr fun r => and_congr_right fun _ => ?_
    by_cases hr : r.dp = dpId <;> simp [hr]

theorem hasSize_updateEncodingMetadataSetEncodingSize
    (h : db.updateEncodingMetadataSetEncodingSize dpId encodingSize = .ok db') :
    db'.HasSize dpId encodingSize := by
  obtain ⟨-, rfl⟩ := updateEncodingMetadataSetEncodingSize_eq_ok.mp h
  intro r hr hdp
  obtain ⟨r', -, rfl⟩ := List.mem_map.mp hr
  by_cases hd : r'.dp = dpId
  · rw [if_pos hd]
  · rw [if_neg hd] at hdp
    exact absurd hdp hd

theorem updateBlocksState_ok {blocks : List BlockName} {state : ProcessedState}
    (h : db.updateBlocksState dpId blocks state = .ok db') :
    SameData db db' ∧ blocks ≠ [] ∧ db'.uploads = db.uploads ∧ db'.projects = db.projects ∧
      db'.dataproviders = db.dataproviders := by
  unfold updateBlocksState at h
  simp only [bind_eq_ok, ensure_eq_ok, pure_eq_ok, Except.ok.injEq, exists_const] at h
  obtain ⟨hne, rfl⟩ := h
  refine ⟨⟨?_, rfl, rfl, rfl⟩, hne, rfl, rfl, rfl⟩
  rw [List.map_map]
  refine List.map_congr_left fun r _ => ?_
  by_cases hr : r.dp = dpId ∧ r.blockName ∈ blocks <;> simp [hr]

end Update

theorem not_ready_updateUploadState (db : Database) (dpId : DpId) (token : Token) :
    ¬ (db.updateUploadState dpId token .error).ReadyUpload token := by
  rintro ⟨r, hr, ht, hs⟩
  unfold updateUploadState at hr
  split_ifs at hr with hm
  · obtain ⟨r', -, rfl⟩ := List.mem_map.mp hr
    by_cases hr' : r'.token = token
    · simp [hr'] at hs
    · rw [if_neg hr'] at ht
      exact hr' ht
  · rcases List.mem_append.mp hr with hr | hr
    · exact hm (ht ▸ List.mem_map_of_mem hr)
    · cases List.mem_singleton.mp hr
      cases hs

theorem failed_updateUploadState (db : Database) (dpId : DpId) (token : Token) :
    (db.updateUploadState dpId token .error).FailedUpload token := by
  unfold updateUploadState
  split_ifs with hm
  · obtain ⟨r, hr, rfl⟩ := List.mem_map.mp hm
    exact ⟨_, List.mem_map_of_mem hr, by simp, by simp⟩
  · exact ⟨_, List.mem_append_right _ List.mem_cons_self, rfl, rfl⟩

theorem sameData_updateUploadState (db : Database) (dpId : DpId) (token : Token)
    (state : ProcessedState) : SameData db (db.updateUploadState dpId token state) := by
  unfold updateUploadState
  split_ifs <;> exact ⟨rfl, rfl, rfl, rfl⟩

theorem sameData_setDataproviderUploadState (db : Database) (dpId : DpId) (state : UploadedState) :
    SameData db (db.setDataproviderUploadState dpId state) := ⟨rfl, rfl, rfl, rfl⟩

end EntityService.Database
