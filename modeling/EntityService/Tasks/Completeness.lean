import EntityService.Tasks.Similarity

/-! Whether the tasks of a run emit every pair of records that qualifies. They emit no others,
and miss one when each chunk pair that holds it has too few records in its first chunk. -/
namespace EntityService.Tasks
open Lib

section Packing
variable {split : SplitToChunks} {dpBlockSizes : BlockSizes} {dpIds : List DpId}
  {blockLookups : BlockLookups} {chunkSizeAim : ℕ}

/-- The chunk pair of a block that is not cut. -/
def WholeBlock (dpBlockSizes : BlockSizes) (dpIds : List DpId) (blockLookups : BlockLookups)
    (pair : ChunkPair) : Prop :=
  ∃ block size1 size2, lookup dpBlockSizes block.2.1 block.1 = some size1 ∧
    lookup dpBlockSizes block.2.2 block.1 = some size2 ∧
    chunkInfo dpIds blockLookups block ((0, size1), (0, size2)) = some pair

/-- A package with more than one chunk pair has whole blocks. -/
structure Packed (dpBlockSizes : BlockSizes) (dpIds : List DpId) (blockLookups : BlockLookups)
    (st : Packing) : Prop where
  packages : ∀ package ∈ st.packages, 1 < package.length →
    ∀ pair ∈ package, WholeBlock dpBlockSizes dpIds blockLookups pair
  curPackage : ∀ pair ∈ st.curPackage, WholeBlock dpBlockSizes dpIds blockLookups pair

theorem packBlock_cases {st st' : Packing} {block : CommonBlock}
    (h : packBlock split dpBlockSizes dpIds blockLookups chunkSizeAim st block = some st') :
    ∃ size1 size2, lookup dpBlockSizes block.2.1 block.1 = some size1 ∧
      lookup dpBlockSizes block.2.2 block.1 = some size2 ∧
      ((chunkSizeAim < size1 * size2 ∧ ∃ chunks,
          (split.run chunkSizeAim size1 size2).mapM (chunkInfo dpIds blockLookups block) =
            some chunks ∧
          st'.packages = st.finish ++ chunks.map (fun c => [c]) ∧ st'.curPackage = [] ∧
          (st'.curComparisons = 0 ∨
            st.curPackage = [] ∧ st'.curComparisons = st.curComparisons)) ∨
        (size1 * size2 ≤ chunkSizeAim ∧ ∃ chunk,
          chunkInfo dpIds blockLookups block ((0, size1), (0, size2)) = some chunk ∧
          (st.curComparisons + size1 * size2 ≤ chunkSizeAim ∧
              st.curPackage.length < MAX_CHUNKS_PER_PACKAGE ∧
              st' = ⟨st.packages, st.curPackage ++ [chunk],
                st.curComparisons + size1 * size2⟩ ∨
            ¬ (st.curComparisons + size1 * size2 ≤ chunkSizeAim ∧
              st.curPackage.length < MAX_CHUNKS_PER_PACKAGE) ∧
              st' = ⟨st.packages ++ [st.curPackage], [chunk], size1 * size2⟩))) := by
  simp only [packBlock, Option.bind_eq_bind, Option.bind_eq_some_iff, Option.pure_def] at h
  obtain ⟨size1, hsize1, size2, hsize2, h⟩ := h
  refine ⟨size1, size2, hsize1, hsize2, ?_⟩
  split_ifs at h with hlarge hpending hfits
  · simp only [Option.bind_eq_some_iff] at h
    obtain ⟨chunks, hchunks, h⟩ := h
    obtain rfl := Option.some.inj h
    refine .inl ⟨hlarge, chunks, hchunks, ?_, rfl, .inl rfl⟩
    rw [Packing.finish, if_pos hpending]
  · simp only [Option.bind_eq_some_iff] at h
    obtain ⟨chunks, hchunks, h⟩ := h
    obtain rfl := Option.some.inj h
    have hempty : st.curPackage = [] := List.length_eq_zero_iff.mp (by omega)
    refine .inl ⟨hlarge, chunks, hchunks, ?_, hempty, .inr ⟨hempty, rfl⟩⟩
    rw [Packing.finish, if_neg hpending]
  all_goals
    simp only [Option.bind_eq_some_iff] at h
    obtain ⟨chunk, hchunk, h⟩ := h
    obtain rfl := Option.some.inj h
  · exact .inr ⟨by omega, chunk, hchunk, .inl ⟨hfits.1, hfits.2, rfl⟩⟩
  · exact .inr ⟨by omega, chunk, hchunk, .inr ⟨hfits, rfl⟩⟩

/-- The packages together with the current one, unless it is empty. -/
theorem mem_finish {st : Packing} {package : Package} :
    package ∈ st.finish ↔
      package ∈ st.packages ∨ package = st.curPackage ∧ st.curPackage ≠ [] := by
  unfold Packing.finish
  split_ifs with hpending
  · simp [List.length_pos_iff.mp hpending]
  · have hempty : st.curPackage = [] := List.length_eq_zero_iff.mp (by omega)
    simp [hempty]

theorem packed_packBlock {st st' : Packing} {block : CommonBlock}
    (hst : Packed dpBlockSizes dpIds blockLookups st)
    (h : packBlock split dpBlockSizes dpIds blockLookups chunkSizeAim st block = some st') :
    Packed dpBlockSizes dpIds blockLookups st' := by
  obtain ⟨size1, size2, hsize1, hsize2, hcases⟩ := packBlock_cases h
  rcases hcases with ⟨-, chunks, -, hpackages, hcur, -⟩ | ⟨-, chunk, hchunk, hcases⟩
  · refine ⟨fun package hpackage hlong pair hpair => ?_, by simp [hcur]⟩
    rw [hpackages, List.mem_append, mem_finish] at hpackage
    rcases hpackage with (hmem | ⟨rfl, -⟩) | hmem
    · exact hst.packages package hmem hlong pair hpair
    · exact hst.curPackage pair hpair
    · obtain ⟨c, -, rfl⟩ := List.mem_map.mp hmem
      simp at hlong
  have hwhole : WholeBlock dpBlockSizes dpIds blockLookups chunk :=
    ⟨block, size1, size2, hsize1, hsize2, hchunk⟩
  rcases hcases with ⟨-, -, rfl⟩ | ⟨-, rfl⟩
  · refine ⟨hst.packages, fun pair hpair => ?_⟩
    rcases List.mem_append.mp hpair with hmem | hmem
    · exact hst.curPackage pair hmem
    · rw [List.mem_singleton.mp hmem]
      exact hwhole
  · refine ⟨fun package hpackage hlong pair hpair => ?_, fun pair hpair => ?_⟩
    · rcases List.mem_append.mp hpackage with hmem | hmem
      · exact hst.packages package hmem hlong pair hpair
      · rw [List.mem_singleton.mp hmem] at hpair
        exact hst.curPackage pair hpair
    · rw [List.mem_singleton.mp hpair]
      exact hwhole

theorem wholeBlock_of_createWorkPackages {blocks : List CommonBlock} {packages : List Package}
    (h : createWorkPackages split blocks dpBlockSizes dpIds blockLookups chunkSizeAim =
      some packages) {package : Package} (hpackage : package ∈ packages)
    (hlong : 1 < package.length) {pair : ChunkPair} (hpair : pair ∈ package) :
    WholeBlock dpBlockSizes dpIds blockLookups pair := by
  simp only [createWorkPackages, Option.bind_eq_bind, Option.bind_eq_some_iff,
    Option.pure_def] at h
  obtain ⟨st, hfold, h⟩ := h
  have hfinish : st.finish = packages := Option.some.inj h
  have hst : Packed dpBlockSizes dpIds blockLookups st :=
    foldlM_some_induction (fun _ _ _ => packed_packBlock) ⟨by simp, by simp⟩ hfold
  rw [← hfinish, mem_finish] at hpackage
  rcases hpackage with hmem | ⟨rfl, -⟩
  · exact hst.packages package hmem hlong pair hpair
  · exact hst.curPackage pair hpair

/-- The chunk pairs of the packages are those of the pieces of the blocks. -/
theorem mem_packages {blocks : List CommonBlock} {packages : List Package}
    (h : createWorkPackages split blocks dpBlockSizes dpIds blockLookups chunkSizeAim =
      some packages) {pair : ChunkPair} :
    (∃ package ∈ packages, pair ∈ package) ↔ ∃ block ∈ blocks, ∃ size1 size2,
      lookup dpBlockSizes block.2.1 block.1 = some size1 ∧
      lookup dpBlockSizes block.2.2 block.1 = some size2 ∧
      ∃ piece ∈ pieces split chunkSizeAim size1 size2,
        chunkInfo dpIds blockLookups block piece = some pair := by
  have hflatten := createWorkPackages_flatten split dpBlockSizes dpIds blockLookups chunkSizeAim
    blocks
  rw [h, Option.map_some] at hflatten
  obtain ⟨chunks, hchunks, heq⟩ := Option.map_eq_some_iff.mp hflatten.symm
  have hmem : (∃ package ∈ packages, pair ∈ package) ↔ pair ∈ chunks.flatten := by
    rw [heq, List.mem_flatten]
  rw [hmem, List.mem_flatten]
  constructor
  · rintro ⟨cs, hcs, hpair⟩
    obtain ⟨block, hblock, hblockChunks⟩ := (mem_of_mapM_eq_some hchunks).mp hcs
    simp only [blockChunks, Option.bind_eq_bind, Option.bind_eq_some_iff] at hblockChunks
    obtain ⟨size1, hsize1, size2, hsize2, hpieces⟩ := hblockChunks
    exact ⟨block, hblock, size1, size2, hsize1, hsize2, (mem_of_mapM_eq_some hpieces).mp hpair⟩
  · rintro ⟨block, hblock, size1, size2, hsize1, hsize2, piece, hpiece, hchunk⟩
    obtain ⟨cs, hcs, hblockChunks⟩ := mapM_some_mem hchunks block hblock
    have hall := hblockChunks
    simp only [blockChunks, Option.bind_eq_bind, Option.bind_eq_some_iff] at hall
    obtain ⟨size1', hsize1', size2', hsize2', hpieces⟩ := hall
    obtain rfl := Option.some.inj (hsize1.symm.trans hsize1')
    obtain rfl := Option.some.inj (hsize2.symm.trans hsize2')
    exact ⟨cs, hcs, (mem_of_mapM_eq_some hpieces).mpr ⟨piece, hpiece, hchunk⟩⟩

/-- A chunk pair carries the ids of its block and the ranges that it was made for. -/
theorem of_chunkInfo {block : CommonBlock} {ranges : Range × Range} {chunks : ChunkPair}
    (h : chunkInfo dpIds blockLookups block ranges = some chunks) :
    (chunks.1.dataproviderId = block.2.1 ∧ chunks.1.range = ranges.1 ∧
      lookup blockLookups block.2.1 block.1 = some chunks.1.blockId) ∧
    chunks.2.dataproviderId = block.2.2 ∧ chunks.2.range = ranges.2 ∧
      lookup blockLookups block.2.2 block.1 = some chunks.2.blockId := by
  obtain ⟨name, dp1, dp2⟩ := block
  simp only [chunkInfo, addDpIdToChunkInfo, Option.bind_eq_bind, Option.bind_eq_some_iff,
    Option.pure_def, Option.some.injEq] at h
  obtain ⟨_, ⟨i, -, j, -, rfl⟩, b, hb, b', hb', rfl⟩ := h
  exact ⟨⟨rfl, rfl, hb⟩, rfl, rfl, hb'⟩

end Packing

open Similarity in
/-- Datasets in the database whose blocks have the numbers of records that are stored for them. -/
structure StoredBlocks (db : Database) (dpIds : List DpId) (size : ℕ)
    (encodings : DpId → List Bytes) : Prop where
  rows : ∀ dpId ∈ dpIds, StoredRows db dpId size (encodings dpId)
  counts : ∀ dpId ∈ dpIds, ∀ block ∈ db.getBlockMetadata dpId,
    0 < block.2.2 ∧ block.2.2 = (blockEntityIds db dpId block.2.1).length

namespace Similarity

def chunkIds (db : Database) (chunk : ChunkInfo) : List ℕ :=
  recordsIn db chunk.dataproviderId chunk.blockId chunk.range

def chunkEncodings (db : Database) (encodings : DpId → List Bytes) (chunk : ChunkInfo) :
    List Bytes :=
  (chunkIds db chunk).map (encodingOf encodings chunk.dataproviderId)

def fetchedOf (db : Database) (encodings : DpId → List Bytes) (chunk : ChunkInfo) : FetchedChunk :=
  ⟨chunk, chunkIds db chunk, chunkEncodings db encodings chunk⟩

/-- The comparison of a chunk pair finds a pair of records. -/
def ChunkEmits {dice : Bytes → Bytes → ℚ} (anonlink : DiceCoefficientAccelerated dice)
    (db : Database) (encodings : DpId → List Bytes) (threshold : ℚ) (chunks : ChunkPair)
    (pair : RecordId × RecordId) : Prop :=
  ∃ s ∈ anonlink.run chunks
      (chunkEncodings db encodings chunks.1, chunkEncodings db encodings chunks.2) threshold
      (min (chunkIds db chunks.1).length (chunkIds db chunks.2).length),
    pair.1.1 = chunks.1.datasetIndex ∧ pair.2.1 = chunks.2.datasetIndex ∧
      (chunkIds db chunks.1)[s.2.1]? = some pair.1.2 ∧
      (chunkIds db chunks.2)[s.2.2]? = some pair.2.2

/-- The chunk pair of a piece of a block that two data providers have. -/
def OfPiece (split : SplitToChunks) (db : Database) (dpIds : List DpId) (chunkSizeAim : ℕ)
    (chunks : ChunkPair) : Prop :=
  chunks.1.datasetIndex < chunks.2.datasetIndex ∧
    dpIds[chunks.1.datasetIndex]? = some chunks.1.dataproviderId ∧
    dpIds[chunks.2.datasetIndex]? = some chunks.2.dataproviderId ∧
    ∃ name count1 count2,
      (name, chunks.1.blockId, count1) ∈ db.getBlockMetadata chunks.1.dataproviderId ∧
      (name, chunks.2.blockId, count2) ∈ db.getBlockMetadata chunks.2.dataproviderId ∧
      (chunks.1.range, chunks.2.range) ∈ pieces split chunkSizeAim count1.toNat count2.toNat

section Stored
variable {db : Database} {dpIds : List DpId} {size : ℕ} {encodings : DpId → List Bytes}

theorem fetchSingleChunk_eq {chunk : ChunkInfo} {encodings : List Bytes}
    (h : StoredRows db chunk.dataproviderId size encodings) :
    fetchSingleChunk db size chunk =
      if chunkIds db chunk = [] then .error .databaseError
      else .ok ⟨chunk, (chunkIds db chunk).dedup,
        (chunkIds db chunk).dedup.map fun i => (record size encodings i).2⟩ := by
  obtain ⟨dpId, datasetIndex, range, blockId⟩ := chunk
  have hchunk := h.getEncodingChunk_eq blockId datasetIndex range
  unfold chunkIds recordsIn
  dsimp only at hchunk ⊢
  rw [fetchSingleChunk, hchunk]
  split_ifs with hempty
  · rfl
  · have hne : ((List.take (range.2 - range.1) (List.drop range.1
        (blockEntityIds db dpId blockId))).dedup.map (record size encodings)) ≠ [] := by
      intro hnil
      exact hempty ((List.dedup_eq_nil _).mp (List.map_eq_nil_iff.mp hnil))
    rw [ok_bind]
    dsimp only
    rw [ensure, if_pos hne, ok_bind, List.map_map, List.map_map, pure_eq_ok]
    have hids : Prod.fst ∘ record size encodings = id := rfl
    rw [hids, List.map_id]
    rfl

theorem chunkIds_ne_nil_iff {chunk : ChunkInfo} : chunkIds db chunk ≠ [] ↔
    chunk.range.1 < chunk.range.2 ∧
      chunk.range.1 < (blockEntityIds db chunk.dataproviderId chunk.blockId).length := by
  have hlength : (chunkIds db chunk).length = min (chunk.range.2 - chunk.range.1)
      ((blockEntityIds db chunk.dataproviderId chunk.blockId).length - chunk.range.1) := by
    simp [chunkIds, recordsIn]
  rw [← List.length_pos_iff, hlength]
  omega

/-- The size and the key of a block come from one row. -/
theorem length_of_lookup (h : StoredBlocks db dpIds size encodings) {dpId : DpId}
    (hdp : dpId ∈ dpIds) {name : BlockName} {n : ℕ} {blockId : BlockId}
    (hsize : lookup (retrieveBlockedDatasetSizesAndLookup db dpIds).1 dpId name = some n)
    (hblock : lookup (retrieveBlockedDatasetSizesAndLookup db dpIds).2 dpId name = some blockId) :
    (blockEntityIds db dpId blockId).length = n ∧ 0 < n := by
  unfold lookup retrieveBlockedDatasetSizesAndLookup at hsize hblock
  rw [get?_ofList_map _ hdp] at hsize hblock
  have hsize :
      (Dict.ofList ((db.getBlockMetadata dpId).map fun r => (r.1, r.2.2.toNat))).get? name =
      some n := hsize
  have hblock : (Dict.ofList ((db.getBlockMetadata dpId).map fun r => (r.1, r.2.1))).get? name =
      some blockId := hblock
  rw [Dict.get?_ofList_key] at hsize hblock
  obtain ⟨row, hrow, rfl⟩ := Option.map_eq_some_iff.mp hsize
  obtain ⟨row', hrow', rfl⟩ := Option.map_eq_some_iff.mp hblock
  obtain rfl := Option.some.inj (hrow.symm.trans hrow')
  obtain ⟨row', hmem, heq⟩ := List.mem_map.mp (Dict.mem_of_get?_ofList hrow)
  obtain rfl := (Prod.mk.inj heq).2
  have hcounts := h.counts dpId hdp row' hmem
  omega

theorem chunkIds_of_wholeBlock (h : StoredBlocks db dpIds size encodings) {so : SetOrder}
    {split : SplitToChunks} {chunkSizeAim : ℕ} {packages : List Package}
    (hscheduled : Scheduled so split db dpIds chunkSizeAim packages) {package : Package}
    (hpackage : package ∈ packages) (hlong : 1 < package.length) {chunks : ChunkPair}
    (hchunks : chunks ∈ package)
    (hmem : chunks.1.dataproviderId ∈ dpIds ∧ chunks.2.dataproviderId ∈ dpIds) :
    ∀ chunk ∈ [chunks.1, chunks.2], chunk.dataproviderId ∈ dpIds ∧ chunkIds db chunk ≠ [] ∧
      chunkIds db chunk = blockEntityIds db chunk.dataproviderId chunk.blockId := by
  obtain ⟨blocks, -, hpackages⟩ := hscheduled.run
  obtain ⟨block, size1, size2, hsize1, hsize2, hchunk⟩ :=
    wholeBlock_of_createWorkPackages hpackages hpackage hlong hchunks
  obtain ⟨⟨hdp1, hrange1, hlookup1⟩, hdp2, hrange2, hlookup2⟩ := of_chunkInfo hchunk
  rw [← hdp1] at hsize1 hlookup1
  rw [← hdp2] at hsize2 hlookup2
  have hwhole : ∀ (chunk : ChunkInfo) (n : ℕ), chunk.dataproviderId ∈ dpIds →
      chunk.range = (0, n) →
      (blockEntityIds db chunk.dataproviderId chunk.blockId).length = n ∧ 0 < n →
      chunk.dataproviderId ∈ dpIds ∧ chunkIds db chunk ≠ [] ∧
        chunkIds db chunk = blockEntityIds db chunk.dataproviderId chunk.blockId := by
    rintro chunk n hdp hrange ⟨hlength, hpos⟩
    refine ⟨hdp, ?_, ?_⟩
    · rw [chunkIds_ne_nil_iff, hrange, hlength]
      exact ⟨hpos, hpos⟩
    · rw [chunkIds, recordsIn, hrange, List.drop_zero, ← hlength]
      exact List.take_length
  intro chunk hchunk
  rcases List.mem_cons.mp hchunk with rfl | hchunk
  · exact hwhole _ size1 hmem.1 hrange1 (length_of_lookup h hmem.1 hsize1 hlookup1)
  · rw [List.mem_singleton.mp hchunk]
    exact hwhole _ size2 hmem.2 hrange2 (length_of_lookup h hmem.2 hsize2 hlookup2)

namespace StoredDatasets
variable (h : StoredDatasets db dpIds size encodings)
include h

theorem storedBlocks : StoredBlocks db dpIds size encodings := by
  refine ⟨h.rows, fun dpId hdp block hblock => ?_⟩
  obtain ⟨hne, -, hcount⟩ := h.blocks dpId hdp block hblock
  have hpos := List.length_pos_iff.mpr hne
  exact ⟨by omega, hcount⟩

theorem lookup_column {ν : Type} (column : BlockId × ℤ → ν) {dpId : DpId} (hdp : dpId ∈ dpIds)
    {name : BlockName} {value : ν} :
    lookup (Dict.ofList (dpIds.map fun dpId =>
        (dpId, Dict.ofList ((db.getBlockMetadata dpId).map fun r => (r.1, column r.2))))) dpId name =
          some value ↔
      ∃ block, (name, block) ∈ db.getBlockMetadata dpId ∧ column block = value := by
  have hnames : (((db.getBlockMetadata dpId).map fun r => (r.1, column r.2)).map
      Prod.fst).Nodup := by
    rw [List.map_map]
    exact h.names dpId hdp
  unfold lookup
  rw [get?_ofList_map _ hdp, Option.bind_eq_bind, Option.bind_some, Dict.get?_ofList hnames,
    List.mem_map]
  constructor
  · rintro ⟨⟨name', block⟩, hmem, heq⟩
    obtain ⟨rfl, rfl⟩ := Prod.mk.inj heq
    exact ⟨block, hmem, rfl⟩
  · rintro ⟨block, hmem, rfl⟩
    exact ⟨_, hmem, rfl⟩

theorem lookup_sizes {dpId : DpId} (hdp : dpId ∈ dpIds) {name : BlockName} {n : ℕ} :
    lookup (retrieveBlockedDatasetSizesAndLookup db dpIds).1 dpId name = some n ↔
      ∃ blockId count, (name, blockId, count) ∈ db.getBlockMetadata dpId ∧ count.toNat = n :=
  (h.lookup_column (fun block => block.2.toNat) hdp).trans Prod.exists

theorem lookup_lookups {dpId : DpId} (hdp : dpId ∈ dpIds) {name : BlockName} {blockId : BlockId} :
    lookup (retrieveBlockedDatasetSizesAndLookup db dpIds).2 dpId name = some blockId ↔
      ∃ count, (name, blockId, count) ∈ db.getBlockMetadata dpId := by
  refine (h.lookup_column Prod.fst hdp).trans ?_
  constructor
  · rintro ⟨⟨_, count⟩, hmem, rfl⟩
    exact ⟨count, hmem⟩
  · rintro ⟨count, hmem⟩
    exact ⟨(blockId, count), hmem, rfl⟩

/-- A name belongs to one block of a data provider. -/
theorem block_unique {dpId : DpId} (hdp : dpId ∈ dpIds) {name : BlockName}
    {blockId blockId' : BlockId} {count count' : ℤ}
    (hmem : (name, blockId, count) ∈ db.getBlockMetadata dpId)
    (hmem' : (name, blockId', count') ∈ db.getBlockMetadata dpId) :
    blockId = blockId' ∧ count = count' := by
  have heq := List.inj_on_of_nodup_map (h.names dpId hdp) hmem hmem' rfl
  simpa using heq

theorem chunkInfo_eq_some {name : BlockName} {dp1 dp2 : DpId} {ranges : Range × Range}
    {chunks : ChunkPair} (hdp1 : dp1 ∈ dpIds) (hdp2 : dp2 ∈ dpIds) :
    chunkInfo dpIds (retrieveBlockedDatasetSizesAndLookup db dpIds).2 (name, dp1, dp2) ranges =
        some chunks ↔
      (chunks.1.dataproviderId = dp1 ∧ chunks.2.dataproviderId = dp2 ∧
        chunks.1.range = ranges.1 ∧ chunks.2.range = ranges.2) ∧
      dpIds[chunks.1.datasetIndex]? = some dp1 ∧ dpIds[chunks.2.datasetIndex]? = some dp2 ∧
      (∃ count, (name, chunks.1.blockId, count) ∈ db.getBlockMetadata dp1) ∧
      ∃ count, (name, chunks.2.blockId, count) ∈ db.getBlockMetadata dp2 := by
  obtain ⟨⟨d1, i1, r1, b1⟩, d2, i2, r2, b2⟩ := chunks
  simp only [chunkInfo, addDpIdToChunkInfo, Option.bind_eq_bind, Option.bind_eq_some_iff,
    Option.pure_def, Option.some.injEq, get?_dpindx h.distinct, h.lookup_lookups hdp1,
    h.lookup_lookups hdp2]
  constructor
  · rintro ⟨_, ⟨i, hi, j, hj, rfl⟩, b, hb, b', hb', heq⟩
    simp only [Prod.mk.injEq, ChunkInfo.mk.injEq] at heq
    obtain ⟨⟨rfl, rfl, rfl, rfl⟩, rfl, rfl, rfl, rfl⟩ := heq
    exact ⟨⟨rfl, rfl, rfl, rfl⟩, hi, hj, hb, hb'⟩
  · rintro ⟨⟨rfl, rfl, rfl, rfl⟩, hi, hj, hb, hb'⟩
    exact ⟨_, ⟨i1, hi, i2, hj, rfl⟩, b1, hb, b2, hb', rfl⟩

/-- The chunk pairs of the packages are those of the pieces of the shared blocks. -/
theorem mem_scheduled {so : SetOrder} {split : SplitToChunks} {chunkSizeAim : ℕ}
    {packages : List Package} (hscheduled : Scheduled so split db dpIds chunkSizeAim packages)
    {chunks : ChunkPair} : (∃ package ∈ packages, chunks ∈ package) ↔
      OfPiece split db dpIds chunkSizeAim chunks := by
  obtain ⟨blocks, hblocks, hpackages⟩ := hscheduled.run
  obtain ⟨blocks', hblocks', -, hcommon⟩ :=
    (blockMetadata db dpIds h.distinct).getCommonBlocks_eq so
  have hsame : blocks' = blocks := Option.some.inj (hblocks'.symm.trans hblocks)
  rw [mem_packages hpackages]
  constructor
  · rintro ⟨⟨name, dp1, dp2⟩, hblock, size1, size2, hsize1, hsize2, piece, hpiece, hchunk⟩
    have hpair := ((hcommon _).mp (hsame ▸ hblock)).1
    obtain ⟨a, b, hab, ha, hb⟩ := mem_combinations2.mp hpair
    have hdp1 : dp1 ∈ dpIds := List.mem_of_getElem? ha
    have hdp2 : dp2 ∈ dpIds := List.mem_of_getElem? hb
    obtain ⟨id1, count1, hmem1, rfl⟩ := (h.lookup_sizes hdp1).mp hsize1
    obtain ⟨id2, count2, hmem2, rfl⟩ := (h.lookup_sizes hdp2).mp hsize2
    obtain ⟨⟨rfl, rfl, hrange1, hrange2⟩, hi, hj, ⟨count1', hblock1⟩, count2', hblock2⟩ :=
      (h.chunkInfo_eq_some hdp1 hdp2).mp hchunk
    obtain ⟨rfl, rfl⟩ := h.block_unique hdp1 hmem1 hblock1
    obtain ⟨rfl, rfl⟩ := h.block_unique hdp2 hmem2 hblock2
    have hindex : ∀ {c d : ℕ} {dp : DpId}, dpIds[c]? = some dp → dpIds[d]? = some dp → c = d := by
      intro c d dp hc hd
      have hlt := (List.getElem?_eq_some_iff.mp hc).1
      exact (List.getElem?_inj hlt h.distinct).mp (hc.trans hd.symm)
    have hlt : chunks.1.datasetIndex < chunks.2.datasetIndex := by
      rw [hindex hi ha, hindex hj hb]
      exact hab
    have hranges : (chunks.1.range, chunks.2.range) = piece := Prod.ext hrange1 hrange2
    exact ⟨hlt, hi, hj, name, count1, count2, hmem1, hmem2, hranges ▸ hpiece⟩
  · rintro ⟨hlt, hi, hj, name, count1, count2, hmem1, hmem2, hpiece⟩
    have hdp1 := List.mem_of_getElem? hi
    have hdp2 := List.mem_of_getElem? hj
    have hsize1 := (h.lookup_sizes hdp1).mpr ⟨_, _, hmem1, rfl⟩
    have hsize2 := (h.lookup_sizes hdp2).mpr ⟨_, _, hmem2, rfl⟩
    refine ⟨(name, chunks.1.dataproviderId, chunks.2.dataproviderId), ?_, _, _, hsize1, hsize2,
      _, hpiece, (h.chunkInfo_eq_some hdp1 hdp2).mpr ⟨⟨rfl, rfl, rfl, rfl⟩, hi, hj, ⟨_, hmem1⟩,
        _, hmem2⟩⟩
    rw [← hsame]
    refine (hcommon _).mpr ⟨mem_combinations2.mpr ⟨_, _, hlt, hi, hj⟩, ?_, ?_⟩
    · exact Option.isSome_iff_exists.mpr ⟨_, hsize1⟩
    · exact Option.isSome_iff_exists.mpr ⟨_, hsize2⟩

theorem chunkIds_of_long {so : SetOrder} {split : SplitToChunks} {chunkSizeAim : ℕ}
    {packages : List Package} (hscheduled : Scheduled so split db dpIds chunkSizeAim packages)
    {package : Package} (hpackage : package ∈ packages) (hlong : 1 < package.length)
    {chunks : ChunkPair} (hchunks : chunks ∈ package) : ∀ chunk ∈ [chunks.1, chunks.2],
      chunk.dataproviderId ∈ dpIds ∧ chunkIds db chunk ≠ [] ∧
        chunkIds db chunk = blockEntityIds db chunk.dataproviderId chunk.blockId := by
  obtain ⟨-, hi, hj, -⟩ := (h.mem_scheduled hscheduled).mp ⟨package, hpackage, hchunks⟩
  exact chunkIds_of_wholeBlock h.storedBlocks hscheduled hpackage hlong hchunks
    ⟨List.mem_of_getElem? hi, List.mem_of_getElem? hj⟩

theorem lt_of_mem_chunkIds {chunk : ChunkInfo} (hdp : chunk.dataproviderId ∈ dpIds) {i : ℕ}
    (hi : i ∈ chunkIds db chunk) : i < (encodings chunk.dataproviderId).length :=
  (h.rows _ hdp).lt_of_mem_blockEntityIds (List.mem_of_mem_drop (List.mem_of_mem_take hi))

/-- The stored encodings are those of the dataset, as all have the same size. -/
theorem record_eq {dpId : DpId} (hdp : dpId ∈ dpIds) {i : ℕ} (hi : i < (encodings dpId).length) :
    record size (encodings dpId) i = (i, encodingOf encodings dpId i) := by
  have hlength : (encodingOf encodings dpId i).length = size := by
    rw [encodingOf, List.getElem?_eq_getElem hi, Option.getD_some]
    exact h.length dpId hdp _ (List.getElem_mem hi)
  exact congrArg (Prod.mk i) (fit_of_length hlength)

theorem fetchSingleChunk_eq {chunk : ChunkInfo} (hdp : chunk.dataproviderId ∈ dpIds)
    (hnodup : (chunkIds db chunk).Nodup) :
    fetchSingleChunk db size chunk =
      if chunkIds db chunk = [] then .error .databaseError
      else .ok (fetchedOf db encodings chunk) := by
  have hencodings : ((chunkIds db chunk).map fun i =>
      (record size (encodings chunk.dataproviderId) i).2) = chunkEncodings db encodings chunk := by
    apply List.map_congr_left
    intro i hi
    exact congrArg Prod.snd (h.record_eq hdp (h.lt_of_mem_chunkIds hdp hi))
  rw [Similarity.fetchSingleChunk_eq (h.rows _ hdp), hnodup.dedup, hencodings]
  rfl

end StoredDatasets
end Stored
end Similarity
end EntityService.Tasks
