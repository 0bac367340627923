import EntityService.Lib.Rows
import EntityService.Models.RunDelete

/-! The data of one project, and the updates that leave it as it is: those of other projects. What
an update finds in a table depends on other projects, what it changes does not. -/
namespace EntityService
open Lib Service

namespace Database

def Owns (db : Database) (projectId : ProjectId) (dpId : DpId) : Prop :=
  ∃ d ∈ db.parties projectId, d.id = dpId

/-- The rows of a project and of what its providers have uploaded are the same. -/
structure Unaffected (projectId : ProjectId) (db db' : Database) : Prop where
  projects : db'.projects.filter (fun r => r.projectId = projectId) =
    db.projects.filter fun r => r.projectId = projectId
  parties : db'.parties projectId = db.parties projectId
  uploads : ∀ {dpId}, db.Owns projectId dpId → db'.uploadsOf dpId = db.uploadsOf dpId
  blocks : ∀ {dpId}, db.Owns projectId dpId →
    db'.blocks.filter (fun r => r.dp = dpId) = db.blocks.filter fun r => r.dp = dpId
  encodings : ∀ {dpId}, db.Owns projectId dpId →
    db'.encodings.filter (fun r => r.dp = dpId) = db.encodings.filter fun r => r.dp = dpId
  encodingblocks : ∀ {dpId}, db.Owns projectId dpId →
    db'.encodingblocks.filter (fun r => r.dp = dpId) =
      db.encodingblocks.filter fun r => r.dp = dpId

section Unaffected
variable {projectId : ProjectId} {db db' db'' : Database} {dpId : DpId}

theorem Unaffected.refl (projectId : ProjectId) (db : Database) : Unaffected projectId db db :=
  ⟨rfl, rfl, fun _ => rfl, fun _ => rfl, fun _ => rfl, fun _ => rfl⟩

theorem Unaffected.owns_iff (h : Unaffected projectId db db') :
    db'.Owns projectId dpId ↔ db.Owns projectId dpId := by
  rw [Owns, Owns, h.parties]

theorem Unaffected.trans (h : Unaffected projectId db db') (h' : Unaffected projectId db' db'') :
    Unaffected projectId db db'' where
  projects := h'.projects.trans h.projects
  parties := h'.parties.trans h.parties
  uploads howns := (h'.uploads (h.owns_iff.mpr howns)).trans (h.uploads howns)
  blocks howns := (h'.blocks (h.owns_iff.mpr howns)).trans (h.blocks howns)
  encodings howns := (h'.encodings (h.owns_iff.mpr howns)).trans (h.encodings howns)
  encodingblocks howns :=
    (h'.encodingblocks (h.owns_iff.mpr howns)).trans (h.encodingblocks howns)

/-- Nothing but the table of the uploads differs. -/
def OnlyUploads (db db' : Database) : Prop := db' = { db with uploads := db'.uploads }

theorem OnlyUploads.trans (h : OnlyUploads db db') (h' : OnlyUploads db' db'') :
    OnlyUploads db db'' := by
  unfold OnlyUploads at h h' ⊢
  rw [h', h]

theorem OnlyUploads.unaffected (h : OnlyUploads db db')
    (huploads : ∀ {dpId}, db.Owns projectId dpId → db'.uploadsOf dpId = db.uploadsOf dpId) :
    Unaffected projectId db db' := by
  refine ⟨?_, ?_, huploads, ?_, ?_, ?_⟩
  all_goals rw [OnlyUploads] at h
  · rw [h]
  · rw [h]
    rfl
  · intro _ _
    rw [h]
  · intro _ _
    rw [h]
  · intro _ _
    rw [h]

theorem ChangesUploads.unaffected (h : db.ChangesUploads dpId db') (honly : OnlyUploads db db')
    (hother : ¬ db.Owns projectId dpId) : Unaffected projectId db db' := by
  apply honly.unaffected
  intro d howns
  apply h.other
  rintro rfl
  exact hother howns

theorem unaffected_setDataproviderState (hother : ¬ db.Owns projectId dpId)
    (f : UploadedState → UploadedState) :
    Unaffected projectId db { db with dataproviders := db.dataproviders.map fun r =>
      if r.id = dpId then { r with uploaded := f r.uploaded } else r } := by
  refine ⟨rfl, ?_, fun _ => rfl, fun _ => rfl, fun _ => rfl, fun _ => rfl⟩
  apply filter_map_of_unchanged
  · intro r _
    by_cases hr : r.id = dpId <;> simp [hr]
  · intro r hr hproject
    rw [if_neg]
    rintro rfl
    exact hother ⟨r, List.mem_filter.mpr ⟨hr, hproject⟩, rfl⟩

theorem unaffected_projects {other : ProjectId} (hother : other ≠ projectId)
    (f : ProjectRow → ProjectRow) (hf : ∀ r, (f r).projectId = r.projectId) :
    Unaffected projectId db { db with
      projects := db.projects.map fun r => if r.projectId = other then f r else r } := by
  refine ⟨?_, rfl, fun _ => rfl, fun _ => rfl, fun _ => rfl, fun _ => rfl⟩
  apply filter_map_of_unchanged
  · intro r _
    by_cases hr : r.projectId = other
    · rw [if_pos hr, hf]
    · rw [if_neg hr]
  · intro r _ hid
    rw [if_neg]
    intro hr
    exact hother (hr.symm.trans (of_decide_eq_true hid))

theorem unaffected_deleteDataproviders {dpIds : List DpId}
    (hother : ∀ dpId ∈ dpIds, ¬ db.Owns projectId dpId) :
    Unaffected projectId db (db.deleteDataproviders dpIds) := by
  have hrows : ∀ {α : Type} {dp : α → DpId} {l : List α} {dpId : DpId},
      db.Owns projectId dpId → (l.filter fun r => dp r ∉ dpIds).filter (fun r => dp r = dpId) =
        l.filter fun r => dp r = dpId := by
    intro α dp l dpId howns
    apply filter_filter_of_imp
    intro r _ hr
    rw [decide_eq_true_eq] at hr ⊢
    intro hmem
    exact hother dpId (hr ▸ hmem) howns
  refine ⟨rfl, ?_, hrows, hrows, hrows, hrows⟩
  apply filter_filter_of_imp
  intro d hd hproject
  rw [decide_eq_true_eq]
  intro hmem
  exact hother d.id hmem ⟨d, List.mem_filter.mpr ⟨hd, hproject⟩, rfl⟩

end Unaffected
end Database

namespace Service
open Database

section OnlyUploads
variable {u : Upload} {db db' : Database}

theorem onlyUploads_insertEncodingMetadata {file : Option FileName} {dpId : DpId} {token : Token}
    {count blockCount : ℤ}
    (h : db.insertEncodingMetadata file dpId token count blockCount = .ok db') :
    OnlyUploads db db' := by
  obtain ⟨-, -, rfl⟩ := insertEncodingMetadata_eq_ok.mp h
  rfl

theorem onlyUploads_setEncodingSize {dpId : DpId} {size : ℤ}
    (h : db.updateEncodingMetadataSetEncodingSize dpId size = .ok db') : OnlyUploads db db' := by
  obtain ⟨-, rfl⟩ := updateEncodingMetadataSetEncodingSize_eq_ok.mp h
  rfl

theorem Upload.onlyUploads_insertSizedMetadata (h : u.insertSizedMetadata db = .ok db') :
    OnlyUploads db db' := by
  obtain ⟨db₁, h₁, h₂⟩ := bind_eq_ok.mp h
  exact (onlyUploads_insertEncodingMetadata h₁).trans (onlyUploads_setEncodingSize h₂)

theorem Upload.onlyUploads_setReady (h : u.setReady db = .ok db') : OnlyUploads db db' := by
  obtain ⟨db₁, h₁, h₂⟩ := bind_eq_ok.mp h
  cases h₂
  exact (onlyUploads_setEncodingSize h₁).trans rfl

theorem Upload.onlyUploads_insertReady (h : u.insertReady db = .ok db') : OnlyUploads db db' := by
  obtain ⟨db₁, h₁, h₂⟩ := bind_eq_ok.mp h
  exact (onlyUploads_insertEncodingMetadata h₁).trans (Upload.onlyUploads_setReady h₂)

theorem UploadRequest.onlyUploads_insertOwnMetadata {r : UploadRequest}
    (h : r.insertOwnMetadata db = .ok db') : OnlyUploads db db' := by
  unfold insertOwnMetadata at h
  split at h
  case h_1 => exact onlyUploads_insertEncodingMetadata h
  case h_2 => exact Upload.onlyUploads_insertSizedMetadata h

theorem onlyUploads_invalidateUpload {dpId : DpId} (h : db.invalidateUpload dpId = .ok db') :
    OnlyUploads db db' := by
  obtain ⟨row, -, h⟩ := bind_eq_ok.mp h
  cases h
  rfl

theorem onlyUploads_updateUploadState (db : Database) (dpId : DpId) (token : Token)
    (state : ProcessedState) : OnlyUploads db (db.updateUploadState dpId token state) := by
  unfold updateUploadState
  split_ifs <;> rfl

end OnlyUploads

/-- The rows of a project, of its uploads and of its runs are the same. -/
structure Server.Unaffected (projectId : ProjectId) (s s' : Server) : Prop where
  db : s.db.Unaffected projectId s'.db
  runs : s'.runs.entries.filter (fun r => r.2.project = projectId) =
    s.runs.entries.filter fun r => r.2.project = projectId
  hashes : ∀ {runId row}, s.runs.get? runId = some row → row.project = projectId →
    s'.hash runId = s.hash runId

section Unaffected
variable {projectId : ProjectId} {s s' s'' : Server}

theorem Server.Unaffected.refl (projectId : ProjectId) (s : Server) : s.Unaffected projectId s :=
  ⟨.refl projectId s.db, rfl, fun _ _ => rfl⟩

theorem Server.Unaffected.get?_iff (h : s.Unaffected projectId s') {runId : RunId} {row : RunRow}
    (hproject : row.project = projectId) :
    s'.runs.get? runId = some row ↔ s.runs.get? runId = some row :=
  ⟨fun hrow => Dict.get?_of_filter_entries h.runs hrow (decide_eq_true hproject),
    fun hrow => Dict.get?_of_filter_entries h.runs.symm hrow (decide_eq_true hproject)⟩

theorem Server.Unaffected.trans (h : s.Unaffected projectId s')
    (h' : s'.Unaffected projectId s'') : s.Unaffected projectId s'' where
  db := h.db.trans h'.db
  runs := h'.runs.trans h.runs
  hashes hrow hproject :=
    (h'.hashes ((h.get?_iff hproject).mpr hrow) hproject).trans (h.hashes hrow hproject)

theorem Server.Unaffected.of_db {db : Database} (h : s.db.Unaffected projectId db) :
    s.Unaffected projectId { s with db := db } := ⟨h, rfl, fun _ _ => rfl⟩

theorem unaffected_setHash {runId : RunId} {hash : Cache.RunHash}
    (hother : ∀ row, s.runs.get? runId = some row → row.project ≠ projectId) :
    s.Unaffected projectId (s.setHash runId hash) := by
  refine ⟨.refl projectId s.db, rfl, ?_⟩
  intro r row hrow hproject
  have hne : r ≠ runId := by
    rintro rfl
    exact hother row hrow hproject
  unfold Server.hash Server.setHash
  rw [Dict.get?_set_of_ne _ _ hne]

theorem unaffected_modifyRun {runId : RunId} {f : RunRow → RunRow}
    (hf : ∀ row, (f row).project = row.project)
    (hother : ∀ row, s.runs.get? runId = some row → row.project ≠ projectId) :
    s.Unaffected projectId (s.modifyRun runId f) := by
  refine ⟨.refl projectId s.db, ?_, fun _ _ => rfl⟩
  apply Dict.filter_entries_mapValues
  · intro id row
    by_cases hid : id = runId
    · simp only [if_pos hid, hf]
    · simp only [if_neg hid]
  · intro id row hrow hproject
    rw [if_neg]
    rintro rfl
    exact hother row hrow (of_decide_eq_true hproject)

theorem unaffected_release {held updated : List RunId} {f : RunRow → RunRow}
    (hf : ∀ row, (f row).project = row.project)
    (hother : ∀ runId ∈ held, ∀ row, s.runs.get? runId = some row → row.project ≠ projectId) :
    s.Unaffected projectId (s.release held updated f) := by
  refine ⟨.refl projectId s.db, ?_, fun _ _ => rfl⟩
  apply Dict.filter_entries_mapValues
  · intro id row
    by_cases hid : id ∈ held
    · by_cases hupdated : id ∈ updated
      · simp only [if_pos hid, if_pos hupdated, hf]
      · simp only [if_pos hid, if_neg hupdated]
    · simp only [if_neg hid]
  · intro id row hrow hproject
    rw [if_neg]
    intro hheld
    exact hother id hheld row hrow (of_decide_eq_true hproject)

end Unaffected

/-- The rows of a project, of its uploads, of its runs and of their results are the same. -/
structure Storage.Unaffected (projectId : ProjectId) (s s' : Storage) : Prop where
  server : s.toServer.Unaffected projectId s'.toServer
  accessToken : s'.accessTokens.get? projectId = s.accessTokens.get? projectId
  runResults : ∀ {runId}, s.RunOf projectId runId →
    s'.runResults.filter (fun r => r.runId = runId) = s.runResults.filter fun r => r.runId = runId
  similarityScores : ∀ {runId}, s.RunOf projectId runId →
    s'.similarityScores.filter (fun r => r.1 = runId) =
      s.similarityScores.filter fun r => r.1 = runId
  permutations : ∀ {runId dpId}, s.RunOf projectId runId → s.db.Owns projectId dpId →
    s'.permutations.filter (fun r => r.dp = dpId ∧ r.run = runId) =
      s.permutations.filter fun r => r.dp = dpId ∧ r.run = runId
  permutationMasks : ∀ {runId}, s.RunOf projectId runId →
    s'.permutationMasks.filter (fun r => r.project = projectId ∧ r.run = runId) =
      s.permutationMasks.filter fun r => r.project = projectId ∧ r.run = runId

section Unaffected
variable {projectId : ProjectId} {s s' s'' : Storage} {runId : RunId}

theorem Storage.Unaffected.refl (projectId : ProjectId) (s : Storage) : s.Unaffected projectId s :=
  ⟨.refl projectId s.toServer, rfl, fun _ => rfl, fun _ => rfl, fun _ _ => rfl, fun _ => rfl⟩

theorem runOf_unaffected (h : s.toServer.Unaffected projectId s'.toServer) :
    s'.RunOf projectId runId ↔ s.RunOf projectId runId := by
  constructor
  · rintro ⟨row, hrow, hproject⟩
    exact ⟨row, (h.get?_iff hproject).mp hrow, hproject⟩
  · rintro ⟨row, hrow, hproject⟩
    exact ⟨row, (h.get?_iff hproject).mpr hrow, hproject⟩

theorem Storage.Unaffected.trans (h : s.Unaffected projectId s')
    (h' : s'.Unaffected projectId s'') : s.Unaffected projectId s'' where
  server := h.server.trans h'.server
  accessToken := h'.accessToken.trans h.accessToken
  runResults hrun :=
    (h'.runResults ((runOf_unaffected h.server).mpr hrun)).trans (h.runResults hrun)
  similarityScores hrun :=
    (h'.similarityScores ((runOf_unaffected h.server).mpr hrun)).trans (h.similarityScores hrun)
  permutations hrun howns :=
    (h'.permutations ((runOf_unaffected h.server).mpr hrun) (h.server.db.owns_iff.mpr howns)).trans
      (h.permutations hrun howns)
  permutationMasks hrun :=
    (h'.permutationMasks ((runOf_unaffected h.server).mpr hrun)).trans (h.permutationMasks hrun)

/-- A step that leaves the tables of the results alone. -/
theorem Storage.Unaffected.of_server {server : Server}
    (h : s.toServer.Unaffected projectId server) :
    s.Unaffected projectId { s with toServer := server } :=
  ⟨h, rfl, fun _ => rfl, fun _ => rfl, fun _ _ => rfl, fun _ => rfl⟩

theorem unaffected_deleteRunData {runId : RunId} (hother : ¬ s.RunOf projectId runId) :
    s.Unaffected projectId (s.deleteRunData runId) := by
  have hne : ∀ {r : RunId}, s.RunOf projectId r → r ≠ runId := by
    rintro r hrun rfl
    exact hother hrun
  refine ⟨⟨.refl projectId s.db, ?_, fun _ _ => rfl⟩, rfl, ?_, ?_, ?_, ?_⟩
  · apply Dict.filter_entries_erase
    intro row hrow
    apply decide_eq_false
    intro hproject
    exact hother ⟨row, hrow, hproject⟩
  · intro r hrun
    apply filter_filter_of_imp
    intro x _ hx
    rw [decide_eq_true_eq] at hx ⊢
    exact hx ▸ hne hrun
  · intro r hrun
    apply filter_filter_of_imp
    intro x _ hx
    rw [decide_eq_true_eq] at hx ⊢
    exact hx ▸ hne hrun
  · intro r dpId hrun _
    apply filter_filter_of_imp
    intro x _ hx
    rw [decide_eq_true_eq] at hx ⊢
    exact hx.2 ▸ hne hrun
  · intro r hrun
    apply filter_filter_of_imp
    intro x _ hx
    rw [decide_eq_true_eq] at hx ⊢
    exact hx.2 ▸ hne hrun

end Unaffected
end Service
end EntityService
