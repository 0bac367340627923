import EntityService.Database.Uploads
import EntityService.World

/-! What an ingestion leaves alone: the datasets of the other providers. -/
namespace EntityService
open Lib

/-- The projects and the data of a provider are the same. -/
structure Untouched (dpId : DpId) (db db' : Database) : Prop where
  projects : db'.projects = db.projects
  blocks : db'.blocks.filter (fun r => r.dp = dpId) = db.blocks.filter (fun r => r.dp = dpId)
  encodings : db'.encodings.filter (fun r => r.dp = dpId) =
    db.encodings.filter (fun r => r.dp = dpId)
  encodingblocks : db'.encodingblocks.filter (fun r => r.dp = dpId) =
    db.encodingblocks.filter (fun r => r.dp = dpId)

/-- Rows of others do not show in a selection. -/
theorem filter_append_of_forall_not {α : Type} {p : α → Bool} {l l' : List α}
    (h : ∀ a ∈ l', ¬ p a = true) : (l ++ l').filter p = l.filter p := by
  rw [List.filter_append, List.filter_eq_nil_iff.mpr h, List.append_nil]

/-- Rows that an update does not change stay where they are. -/
theorem filter_map_of_fixed {α : Type} {f : α → α} {p : α → Bool} {l : List α}
    (hp : ∀ a, p (f a) = p a) (hf : ∀ a, p a = true → f a = a) :
    (l.map f).filter p = l.filter p := by
  have hcomp : p ∘ f = p := funext hp
  rw [List.filter_map, hcomp]
  conv_rhs => rw [← List.map_id (l.filter p)]
  exact List.map_congr_left fun a ha => hf a (List.mem_filter.mp ha).2

theorem not_mem_of_filter {α : Type} {dp : α → DpId} {dpId : DpId} {l l' : List α}
    (h : l'.filter (fun a => dp a = dpId) = l.filter (fun a => dp a = dpId))
    (hl : ∀ a ∈ l, dp a ≠ dpId) : ∀ a ∈ l', dp a ≠ dpId := by
  intro a ha hdp
  have hmem : a ∈ l.filter (fun a => dp a = dpId) :=
    h ▸ List.mem_filter.mpr ⟨ha, decide_eq_true hdp⟩
  exact hl a (List.mem_filter.mp hmem).1 hdp

namespace Untouched
variable {dpId other : DpId} {db db' : Database}

theorem refl (dpId : DpId) (db : Database) : Untouched dpId db db := ⟨rfl, rfl, rfl, rfl⟩

theorem trans {db'' : Database} (h : Untouched dpId db db') (h' : Untouched dpId db' db'') :
    Untouched dpId db db'' :=
  ⟨h'.projects.trans h.projects, h'.blocks.trans h.blocks, h'.encodings.trans h.encodings,
    h'.encodingblocks.trans h.encodingblocks⟩

theorem getBlockMetadata (h : Untouched dpId db db') :
    db'.getBlockMetadata dpId = db.getBlockMetadata dpId := by
  unfold Database.getBlockMetadata
  rw [h.blocks]

theorem ingested (h : Untouched dpId db db') {first : BlockId} {blocks : List (BlockName × ℤ)}
    {items : List Item} (hi : db.Ingested dpId first blocks items) :
    db'.Ingested dpId first blocks items where
  clean := hi.clean
  names := hi.names
  declared := h.blocks ▸ hi.declared
  encodings := h.encodings.trans hi.encodings
  encodingblocks := by
    rw [h.encodingblocks, hi.encodingblocks, Database.blockLookup, Database.blockLookup,
      h.getBlockMetadata]
  known := by
    rw [Database.blockLookup, h.getBlockMetadata]
    exact hi.known
  nodup := hi.nodup
  small := hi.small

theorem checkProjectExists (h : Untouched dpId db db') (projectId : ProjectId) :
    db'.checkProjectExists projectId = db.checkProjectExists projectId := by
  unfold Database.checkProjectExists
  rw [h.projects]

theorem vacant (h : Untouched dpId db db') (hvacant : db.Vacant dpId) : db'.Vacant dpId where
  blocks := not_mem_of_filter h.blocks hvacant.blocks
  encodings := not_mem_of_filter h.encodings hvacant.encodings
  encodingblocks := not_mem_of_filter h.encodingblocks hvacant.encodingblocks

theorem insertEncodingMetadata {clksFilename : Option FileName} {token : Token}
    {encodingCount blockCount : ℤ}
    (h : db.insertEncodingMetadata clksFilename other token encodingCount blockCount = .ok db') :
    Untouched dpId db db' := by
  obtain ⟨-, -, rfl⟩ := Database.insertEncodingMetadata_eq_ok.mp h
  exact ⟨rfl, rfl, rfl, rfl⟩

theorem updateEncodingMetadataSetEncodingSize {size : ℤ}
    (h : db.updateEncodingMetadataSetEncodingSize other size = .ok db') :
    Untouched dpId db db' := by
  obtain ⟨-, rfl⟩ := Database.updateEncodingMetadataSetEncodingSize_eq_ok.mp h
  exact ⟨rfl, rfl, rfl, rfl⟩

theorem updateEncodingMetadata (clksFilename : Option FileName) (state : ProcessedState) :
    Untouched dpId db (db.updateEncodingMetadata clksFilename other state) := ⟨rfl, rfl, rfl, rfl⟩

theorem updateUploadState (token : Token) (state : ProcessedState) :
    Untouched dpId db (db.updateUploadState other token state) := by
  unfold Database.updateUploadState
  split_ifs <;> exact ⟨rfl, rfl, rfl, rfl⟩

theorem insertBlockingMetadata (hne : other ≠ dpId) {blocks : List (BlockName × ℤ)}
    (h : db.insertBlockingMetadata other blocks = .ok db') : Untouched dpId db db' := by
  obtain ⟨-, rfl⟩ := Database.insertBlockingMetadata_eq_ok.mp h
  refine ⟨rfl, ?_, rfl, rfl⟩
  unfold Database.addBlocks
  refine filter_append_of_forall_not fun r hr => ?_
  obtain ⟨b, -, rfl⟩ := List.mem_map.mp hr
  simpa using hne

theorem storeEncodingsInDb (hne : other ≠ dpId) {settings : Settings} {gen : Generator Item}
    {size : ℤ} (h : EntityService.storeEncodingsInDb settings db other gen size = .ok db') :
    Untouched dpId db db' := by
  obtain ⟨n, items, -, -, -, -, rfl⟩ := storeEncodingsInDb_ok h
  refine ⟨rfl, rfl, ?_, ?_⟩
  · unfold Database.addItems
    refine filter_append_of_forall_not fun r hr => ?_
    obtain ⟨item, -, rfl⟩ := List.mem_map.mp hr
    exact fun hdp => hne (of_decide_eq_true hdp)
  · unfold Database.addItems
    refine filter_append_of_forall_not fun r hr => ?_
    obtain ⟨item, -, hrow⟩ := List.mem_flatMap.mp hr
    obtain ⟨name, -, rfl⟩ := List.mem_map.mp hrow
    exact fun hdp => hne (of_decide_eq_true hdp)

theorem updateBlocksState (hne : other ≠ dpId) {blocks : List BlockName} {state : ProcessedState}
    (h : db.updateBlocksState other blocks state = .ok db') : Untouched dpId db db' := by
  unfold Database.updateBlocksState at h
  simp only [bind_eq_ok, ensure_eq_ok, pure_eq_ok, Except.ok.injEq, exists_const] at h
  obtain ⟨-, rfl⟩ := h
  refine ⟨rfl, filter_map_of_fixed (fun r => ?_) (fun r hr => ?_), rfl, rfl⟩
  · by_cases hr : r.dp = other ∧ r.blockName ∈ blocks <;> simp [hr]
  · have hdp : ¬ (r.dp = other ∧ r.blockName ∈ blocks) := by
      rintro ⟨hother, -⟩
      exact hne (hother.symm.trans (of_decide_eq_true hr))
    rw [if_neg hdp]

end Untouched
end EntityService
