import EntityService.Service.RunTokens
import EntityService.Tasks.CleanupSteps

/-! Which rows a step can add to the tables of the data of a project. -/
namespace EntityService
open Lib

namespace Database

/-- The provider owns a row in one of the tables of uploaded data. -/
def OwnsRows (db : Database) (dpId : DpId) : Prop :=
  dpId ∈ db.uploads.map UploadRow.dp ∨ dpId ∈ db.blocks.map BlockRow.dp ∨
    dpId ∈ db.encodings.map EncodingRow.dp ∨ dpId ∈ db.encodingblocks.map EncodingBlockRow.dp

instance (db : Database) (dpId : DpId) : Decidable (db.OwnsRows dpId) :=
  inferInstanceAs (Decidable (_ ∨ _))

theorem mem_uploads_iff {db : Database} {dpId : DpId} :
    dpId ∈ db.uploads.map UploadRow.dp ↔ 0 < (db.uploadsOf dpId).length := by
  rw [List.length_pos_iff_exists_mem, List.mem_map]
  exact exists_congr fun r => mem_uploadsOf.symm

end Database

namespace Service

section Data
variable {settings : Settings} {s s' : Server} {t t' : Process} {a : Action}
  {started : List Process}

theorem Upload.sameData_insertSizedMetadata {u : Upload} {db db' : Database}
    (h : u.insertSizedMetadata db = .ok db') : Database.SameData db db' := by
  obtain ⟨db₁, h₁, h₂⟩ := bind_eq_ok.mp h
  exact (Database.insertEncodingMetadata_ok h₁).1.trans
    (Database.updateEncodingMetadataSetEncodingSize_ok h₂).1

theorem Upload.sameData_setReady {u : Upload} {db db' : Database} (h : u.setReady db = .ok db') :
    Database.SameData db db' := by
  obtain ⟨db₁, h₁, h₂⟩ := bind_eq_ok.mp h
  cases h₂
  exact (Database.updateEncodingMetadataSetEncodingSize_ok h₁).1.trans
    (Database.sameData_updateEncodingMetadata db₁ u.dpId none .ready)

theorem Upload.sameData_insertReady {u : Upload} {db db' : Database}
    (h : u.insertReady db = .ok db') : Database.SameData db db' := by
  obtain ⟨db₁, h₁, h₂⟩ := bind_eq_ok.mp h
  exact (Database.insertEncodingMetadata_ok h₁).1.trans (Upload.sameData_setReady h₂)

theorem UploadRequest.sameData_insertOwnMetadata {r : UploadRequest} {db db' : Database}
    (h : r.insertOwnMetadata db = .ok db') : Database.SameData db db' := by
  unfold insertOwnMetadata at h
  split at h
  case h_1 => exact (Database.insertEncodingMetadata_ok h).1
  case h_2 => exact Upload.sameData_insertSizedMetadata h

theorem sameData_invalidateUpload {db db' : Database} {dpId : DpId}
    (h : db.invalidateUpload dpId = .ok db') : Database.SameData db db' := by
  obtain ⟨row, -, h⟩ := bind_eq_ok.mp h
  cases h
  exact Database.sameData_updateEncodingMetadata db dpId (some "DELETED") .error

/-- The tables of the blocks and of the encodings are no concern of the service's own steps. -/
theorem sameData_step (hstep : ServiceStep settings s t a s' t' started) :
    Database.SameData s.db s'.db := by
  cases hstep with
  | request h =>
    cases h with
    | lock => exact ⟨rfl, rfl, rfl, rfl⟩
    | insert _ hok => exact UploadRequest.sameData_insertOwnMetadata hok
    | store _ hok => exact Upload.sameData_setReady hok
    | setDone | reset => exact Database.sameData_setDataproviderUploadState _ _ _
    | _ => exact .refl s.db
  | uploadTask h =>
    cases h with
    | invalidate _ hok => exact sameData_invalidateUpload hok
    | setReady _ hok => exact Upload.sameData_setReady hok
    | insertReady _ hok => exact Upload.sameData_insertReady hok
    | insertMetadata _ hok => exact Upload.sameData_insertSizedMetadata hok
    | recordError => exact Database.sameData_updateUploadState _ _ _ _
    | _ => exact .refl s.db
  | post h => exact db_postStep h ▸ .refl s.db
  | check h =>
    cases h with
    | invalidate _ hok => exact sameData_invalidateUpload hok
    | @commit check =>
      rw [db_commit]
      cases check.setSize <;> exact ⟨rfl, rfl, rfl, rfl⟩
    | _ => exact .refl s.db
  | runTask h => exact db_runTaskStep h ▸ .refl s.db

/-- A step of the service adds rows of a provider only by inserting an upload. -/
theorem ownsRows_step (hstep : ServiceStep settings s t a s' t' started) {dpId : DpId}
    (h : s'.db.OwnsRows dpId) : s.db.OwnsRows dpId ∨ insertsFor s t a = some dpId := by
  have hdata := sameData_step hstep
  rcases h with h | h | h | h
  · rw [Database.mem_uploads_iff, (tables_step hstep).2 dpId] at h
    split_ifs at h with hinserts
    · exact .inr hinserts
    · exact .inl (.inl (Database.mem_uploads_iff.mpr h))
  · have hblocks : s'.db.blocks.map BlockRow.dp = s.db.blocks.map BlockRow.dp := by
      have hmap := congrArg (List.map Prod.fst) hdata.blocks
      rwa [List.map_map, List.map_map] at hmap
    exact .inl (.inr (.inl (hblocks ▸ h)))
  · exact .inl (.inr (.inr (.inl (hdata.encodings ▸ h))))
  · exact .inl (.inr (.inr (.inr (hdata.encodingblocks ▸ h))))

theorem project_of_serviceStep (hstep : ServiceStep settings s t a s' t' started) {runId : RunId}
    {row : RunRow} (hrow : s.runs.get? runId = some row) :
    ∃ row', s'.runs.get? runId = some row' ∧ row'.project = row.project := by
  have hrowStep := rowStep_of_step hstep runId
  rw [hrow] at hrowStep
  generalize hrow' : s'.runs.get? runId = row' at hrowStep
  cases hrowStep with
  | @change c check held updated row =>
    refine ⟨_, rfl, ?_⟩
    unfold Check.change
    split_ifs <;> rfl
  | _ => exact ⟨_, rfl, rfl⟩

end Data
end Service

namespace Tasks.ProjectCleanup
open Service

/-- The providers for which the next transaction of a process inserts rows. -/
def rowsFor (s : Server) (t : Process) (w : Written) : List DpId :=
  (insertsFor s t .proceed).toList ++ ((uploadRows w t).map UploadRows.dpId).toList

/-- The rows that a step may add: those of the providers for which it inserts, and the results of
the runs for which it stores them. What is stored refers to what exists. -/
structure Adds (s s' : Storage) (rows : List DpId) (grouped permuted : Option RunId) : Prop where
  owns : ∀ dpId, s'.db.OwnsRows dpId → s.db.OwnsRows dpId ∨
    dpId ∈ rows ∧ ProviderExists s.toServer dpId
  providers : ∀ dpId, ProviderExists s'.toServer dpId → ProviderExists s.toServer dpId
  project : ∀ runId row, s.runs.get? runId = some row →
    ∃ row', s'.runs.get? runId = some row' ∧ row'.project = row.project
  runResults : ∀ r, s'.runResults.count r ≤ s.runResults.count r ∨
    grouped = some r.runId ∧ s.RunExists r.runId
  permutations : ∀ r, s'.permutations.count r ≤ s.permutations.count r ∨
    permuted = some r.run ∧ ∃ projectId, s.RunOf projectId r.run ∧
      r.dp ∈ (s.getDataproviderIds projectId).take 2 ∧ ProviderExists s.toServer r.dp
  permutationMasks : ∀ r, s'.permutationMasks.count r ≤ s.permutationMasks.count r ∨
    permuted = some r.run ∧ s.RunOf r.project r.run

section Adds
variable {settings : Settings} {s s' : Storage} {rows : List DpId}
  {grouped permuted : Option RunId}

theorem Adds.of_removes (howns : ∀ dpId, s'.db.OwnsRows dpId → s.db.OwnsRows dpId)
    (hproviders : ∀ dpId, ProviderExists s'.toServer dpId → ProviderExists s.toServer dpId)
    (hruns : s'.runs = s.runs) (hresults : s'.runResults.Sublist s.runResults)
    (hpermutations : s'.permutations.Sublist s.permutations)
    (hmasks : s'.permutationMasks.Sublist s.permutationMasks) :
    Adds s s' rows grouped permuted where
  owns dpId h := .inl (howns dpId h)
  providers := hproviders
  project _ row h := ⟨row, hruns ▸ h, rfl⟩
  runResults r := .inl (hresults.count_le r)
  permutations r := .inl (hpermutations.count_le r)
  permutationMasks r := .inl (hmasks.count_le r)

theorem Adds.refl (s : Storage) : Adds s s rows grouped permuted :=
  .of_removes (fun _ h => h) (fun _ h => h) rfl (.refl _) (.refl _) (.refl _)

/-- A run that exists belongs to the project afterwards only if it did before. -/
theorem Adds.runOf (h : Adds s s' rows grouped permuted) {projectId : ProjectId} {runId : RunId}
    (hexists : s.RunExists runId) (hrun : s'.RunOf projectId runId) : s.RunOf projectId runId := by
  obtain ⟨row, hrow⟩ := Dict.mem_keys_iff.mp hexists
  obtain ⟨row', hrow', hproject⟩ := h.project runId row hrow
  obtain ⟨row'', hrow'', rfl⟩ := hrun
  obtain rfl := Option.some.inj (hrow'.symm.trans hrow'')
  exact ⟨row, hrow, hproject.symm⟩

theorem Adds.runExists (h : Adds s s' rows grouped permuted) {runId : RunId}
    (hexists : s.RunExists runId) : s'.RunExists runId := by
  obtain ⟨row, hrow⟩ := Dict.mem_keys_iff.mp hexists
  obtain ⟨row', hrow', -⟩ := h.project runId row hrow
  exact Dict.mem_keys_of_get? hrow'

theorem ownsRows_deleteDataproviders {db : Database} {dpIds : List DpId} {dpId : DpId}
    (h : (db.deleteDataproviders dpIds).OwnsRows dpId) : db.OwnsRows dpId ∧ dpId ∉ dpIds := by
  have hfilter : ∀ {α : Type} {dp : α → DpId} {l : List α},
      dpId ∈ (l.filter fun r => dp r ∉ dpIds).map dp → dpId ∈ l.map dp ∧ dpId ∉ dpIds := by
    intro α dp l h
    obtain ⟨r, hr, rfl⟩ := List.mem_map.mp h
    obtain ⟨hr, hnot⟩ := List.mem_filter.mp hr
    exact ⟨List.mem_map_of_mem hr, of_decide_eq_true hnot⟩
  rcases h with h | h | h | h
  · exact ⟨.inl (hfilter h).1, (hfilter h).2⟩
  · exact ⟨.inr (.inl (hfilter h).1), (hfilter h).2⟩
  · exact ⟨.inr (.inr (.inl (hfilter h).1)), (hfilter h).2⟩
  · exact ⟨.inr (.inr (.inr (hfilter h).1)), (hfilter h).2⟩

theorem providerExists_commitDeleted {d : Deleted} {dpId : DpId}
    (h : ProviderExists (s.commitDeleted d).toServer dpId) :
    ProviderExists s.toServer dpId ∧ dpId ∉ d.dpIds := by
  obtain ⟨r, hr, rfl⟩ := List.mem_map.mp h
  obtain ⟨hr, hnot⟩ := List.mem_filter.mp hr
  exact ⟨List.mem_map_of_mem hr, of_decide_eq_true hnot⟩

theorem adds_commitDeleted (d : Deleted) : Adds s (s.commitDeleted d) rows grouped permuted :=
  .of_removes (fun _ h => (ownsRows_deleteDataproviders h).1)
    (fun _ h => (providerExists_commitDeleted h).1) rfl (List.diff_sublist _ _)
    (List.filter_sublist.trans (List.diff_sublist _ _)) (List.diff_sublist _ _)

theorem ownsRows_insertUploadRows {w : UploadRows} (hinsert : insertUploadRows s w = .ok s')
    {dpId : DpId} (h : s'.db.OwnsRows dpId) :
    s.db.OwnsRows dpId ∨ dpId = w.dpId ∧ ProviderExists s.toServer dpId := by
  obtain ⟨u, hkey, hinsert⟩ := bind_eq_ok.mp hinsert
  cases hinsert
  have hkey := ensure_eq_ok.mp hkey
  have happend : ∀ {α : Type} (dp : α → DpId) (f : α → α) {l l' : List α},
      (∀ r, dp (f r) = w.dpId) → dpId ∈ (l ++ l'.map f).map dp →
        dpId ∈ l.map dp ∨ dpId = w.dpId ∧ l' ≠ [] := by
    intro α dp f l l' hf h
    obtain ⟨r, hr, rfl⟩ := List.mem_map.mp h
    rcases List.mem_append.mp hr with hr | hr
    · exact .inl (List.mem_map_of_mem hr)
    · obtain ⟨r', hr', rfl⟩ := List.mem_map.mp hr
      exact .inr ⟨hf r', List.ne_nil_of_mem hr'⟩
  rcases h with h | h | h | h
  · exact .inl (.inl h)
  · rcases happend BlockRow.dp (fun r => { r with dp := w.dpId }) (fun _ => rfl) h with
      h | ⟨rfl, hne⟩
    · exact .inl (.inr (.inl h))
    · exact .inr ⟨rfl, hkey.resolve_left fun hnil => hne hnil.1⟩
  · rcases happend EncodingRow.dp (fun r => { r with dp := w.dpId }) (fun _ => rfl) h with
      h | ⟨rfl, hne⟩
    · exact .inl (.inr (.inr (.inl h)))
    · exact .inr ⟨rfl, hkey.resolve_left fun hnil => hne hnil.2.1⟩
  · rcases happend EncodingBlockRow.dp (fun r => { r with dp := w.dpId }) (fun _ => rfl) h with
      h | ⟨rfl, hne⟩
    · exact .inl (.inr (.inr (.inr h)))
    · exact .inr ⟨rfl, hkey.resolve_left fun hnil => hne hnil.2.2⟩

/-- The run of which the next transaction of a process stores groups. -/
def storesGroups : Process → Option RunId
  | .runTask (.saveAndPermute _ runId .pending) => some runId
  | _ => none

/-- The run of which the next transaction of a process stores permutations and a mask. -/
def storesPermutations : Process → Option RunId
  | .runTask (.permuteMappingData runId .pending) => some runId
  | _ => none

section Service
variable {server : Server} {t t' : Process} {a : Action} {started : List Process}

theorem insertsFor_of_ne_proceed {s : Server} (ha : a ≠ .proceed) : insertsFor s t a = none := by
  unfold insertsFor
  split
  case h_1 => exact absurd rfl ha
  case h_2 => exact absurd rfl ha
  case h_3 => rfl

/-- The step itself, before what it stores. -/
theorem adds_server (hstep : ServiceStep settings s.toServer t a server t' started)
    (hkey : ∀ dpId, insertsFor s.toServer t a = some dpId → ProviderExists s.toServer dpId)
    (hrows : ∀ dpId, insertsFor s.toServer t a = some dpId → dpId ∈ rows) :
    Adds s { s with toServer := server } rows grouped permuted where
  owns dpId h := by
    rcases ownsRows_step hstep h with h | h
    · exact .inl h
    · exact .inr ⟨hrows dpId h, hkey dpId h⟩
  providers dpId h := by
    have hkeys := congrArg (List.map Prod.fst) (providerKeys_step hstep)
    unfold Database.providerKeys at hkeys
    rw [List.map_map, List.map_map] at hkeys
    have hids : server.db.dataproviders.map DataproviderRow.id =
      s.db.dataproviders.map DataproviderRow.id := hkeys
    unfold ProviderExists
    rw [← hids]
    exact h
  project _ row h := project_of_serviceStep hstep h
  runResults r := .inl le_rfl
  permutations r := .inl le_rfl
  permutationMasks r := .inl le_rfl

theorem Adds.of_data {s'' : Storage} (h : Adds s s' rows grouped permuted)
    (hsame : SameTables s' s'') (howns : ∀ dpId, s''.db.OwnsRows dpId →
      s'.db.OwnsRows dpId ∨ dpId ∈ rows ∧ ProviderExists s'.toServer dpId)
    (hresults : s''.runResults = s'.runResults) (hpermutations : s''.permutations = s'.permutations)
    (hmasks : s''.permutationMasks = s'.permutationMasks) : Adds s s'' rows grouped permuted where
  owns dpId h'' := by
    rcases howns dpId h'' with h' | ⟨hrows, hexists⟩
    · exact h.owns dpId h'
    · exact .inr ⟨hrows, h.providers dpId hexists⟩
  providers dpId h'' := by
    unfold ProviderExists at h''
    rw [hsame.dataproviders] at h''
    exact h.providers dpId h''
  project := by
    rw [hsame.runs]
    exact h.project
  runResults := by
    rw [hresults]
    exact h.runResults
  permutations := by
    rw [hpermutations]
    exact h.permutations
  permutationMasks := by
    rw [hmasks]
    exact h.permutationMasks

theorem uploadRows_dpId {w : Written} {rows : UploadRows} (h : uploadRows w t = some rows)
    (w' : Written) : (uploadRows w' t).map UploadRows.dpId = some rows.dpId := by
  cases t with
  | request r =>
    unfold uploadRows at h ⊢
    dsimp only at h ⊢
    split at h
    case h_4 => cases h
    all_goals
      cases h
      rfl
  | uploadTask t =>
    unfold uploadRows at h ⊢
    dsimp only at h ⊢
    split at h
    case h_4 => cases h
    all_goals
      cases h
      rfl
  | _ => cases h

theorem adds_service (w : Written)
    (hstep : ServiceStep settings s.toServer t .proceed server t' started)
    (hkey : ∀ dpId, insertsFor s.toServer t .proceed = some dpId → ProviderExists s.toServer dpId)
    (hstores : Stores { s with toServer := server } t s') :
    Adds s s' (rowsFor s.toServer t w) (storesGroups t) (storesPermutations t) := by
  have hbase : Adds s { s with toServer := server } (rowsFor s.toServer t w) (storesGroups t)
      (storesPermutations t) := by
    refine adds_server hstep hkey fun dpId h => List.mem_append_left _ ?_
    rw [h]
    exact List.mem_singleton_self dpId
  have hsame := hstores.sameTables
  cases hstores with
  | nothing => exact hbase
  | scores => exact hbase.of_data hsame (fun _ h => .inl h) rfl rfl rfl
  | @upload _ w' rows _ hrows hinsert =>
    have hsameResults : s'.runResults = s.runResults ∧ s'.permutations = s.permutations ∧
        s'.permutationMasks = s.permutationMasks := by
      obtain ⟨u, -, he⟩ := bind_eq_ok.mp hinsert
      cases he
      exact ⟨rfl, rfl, rfl⟩
    refine hbase.of_data hsame (fun dpId h => ?_) hsameResults.1 hsameResults.2.1 hsameResults.2.2
    rcases ownsRows_insertUploadRows hinsert h with h | ⟨rfl, hexists⟩
    · exact .inl h
    · refine .inr ⟨List.mem_append_right _ ?_, hexists⟩
      rw [uploadRows_dpId hrows w]
      exact List.mem_singleton_self _
  | @groups projectId runId groups hrun =>
    obtain rfl : server = s.toServer := by
      cases hstep with
      | runTask h =>
        cases h with
        | saveGroups => rfl
    refine ⟨hbase.owns, hbase.providers, hbase.project, fun r => ?_, hbase.permutations,
      hbase.permutationMasks⟩
    by_cases hr : r = ⟨runId, groups⟩
    · exact .inr ⟨congrArg some (congrArg RunResultRow.runId hr).symm, hr ▸ hrun⟩
    · refine .inl (le_of_eq ?_)
      rw [List.count_append, List.count_eq_zero_of_not_mem (mt List.mem_singleton.mp hr), add_zero]
  | @permutations runId row rows mask hrun hrows =>
    obtain rfl : server = s.toServer := by
      cases hstep with
      | runTask h =>
        cases h with
        | permute => rfl
    refine ⟨hbase.owns, hbase.providers, hbase.project, hbase.runResults, fun r => ?_,
      fun r => ?_⟩
    · by_cases hr : r ∈ rows
      · obtain ⟨rfl, htake, hexists⟩ := hrows r hr
        exact .inr ⟨rfl, row.project, ⟨row, hrun, rfl⟩, htake, hexists⟩
      · refine .inl (le_of_eq ?_)
        rw [List.count_append, List.count_eq_zero_of_not_mem hr, add_zero]
    · by_cases hr : r = ⟨row.project, runId, mask⟩
      · subst hr
        exact .inr ⟨rfl, row, hrun, rfl⟩
      · refine .inl (le_of_eq ?_)
        rw [List.count_append, List.count_eq_zero_of_not_mem (mt List.mem_singleton.mp hr),
          add_zero]

end Service
end Adds
end Tasks.ProjectCleanup
end EntityService
