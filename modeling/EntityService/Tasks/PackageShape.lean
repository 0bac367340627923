import EntityService.Tasks.CutOff

/-! The shape of the packages. The tasks fetch whole blocks for a package with several chunk
pairs and look at the ranges only for a package with one. -/
namespace EntityService.Tasks
open Lib Similarity

def chunkComparisons (chunks : ChunkPair) : ℕ :=
  (chunks.1.range.2 - chunks.1.range.1) * (chunks.2.range.2 - chunks.2.range.1)

def comparisons (package : Package) : ℕ := (package.map chunkComparisons).sum

/-- The range of a chunk is its block. -/
def WholeChunk (m : BlockMetadata) (chunk : ChunkInfo) : Prop :=
  ∃ name size, lookup m.sizes chunk.dataproviderId name = some size ∧
    lookup m.lookups chunk.dataproviderId name = some chunk.blockId ∧ chunk.range = (0, size)

/-- A package of several small blocks. -/
structure Bundled (m : BlockMetadata) (chunkSizeAim : ℕ) (package : Package) : Prop where
  length : package.length ≤ MAX_CHUNKS_PER_PACKAGE
  comparisons : comparisons package ≤ chunkSizeAim
  whole : ∀ chunks ∈ package, WholeChunk m chunks.1 ∧ WholeChunk m chunks.2

/-- A fetched chunk has the records in the range of the chunk with their encodings. A record that
is listed several times may be fetched once. -/
structure HoldsRange (db : Database) (size : ℕ) (encodings : DpId → List Bytes) (chunk : ChunkInfo)
    (fetched : FetchedChunk) : Prop where
  chunkInfo : fetched.chunkInfo = chunk
  entityIds : fetched.entityIds = chunkIds db chunk ∨
    fetched.entityIds = (chunkIds db chunk).dedup
  encodings : fetched.encodings =
    fetched.entityIds.map fun i => (record size (encodings chunk.dataproviderId) i).2

/-- A task compares the records in the ranges of its chunk pairs, and does so unless there are
none. -/
structure ComparesRanges (db : Database) (size : ℕ) (encodings : DpId → List Bytes)
    (package : Package) : Prop where
  holdsRange : ∀ fetched, packageWithEncodingData db size package = .ok fetched →
    List.Forall₂ (fun chunks pair => HoldsRange db size encodings chunks.1 pair.1 ∧
      HoldsRange db size encodings chunks.2 pair.2) package fetched
  succeeds : (∃ fetched, packageWithEncodingData db size package = .ok fetched) ↔
    ∀ chunks ∈ package, 0 < chunkComparisons chunks

section Shape
variable {split : SplitToChunks} {dpBlockSizes : BlockSizes} {dpIds : List DpId}
  {blockLookups : BlockLookups} {chunkSizeAim : ℕ}

/-- What the packing loop keeps of the sizes of its packages. -/
structure Shaped (chunkSizeAim : ℕ) (st : Packing) : Prop where
  packages : ∀ package ∈ st.packages, package ≠ [] ∧ (1 < package.length →
    package.length ≤ MAX_CHUNKS_PER_PACKAGE ∧ comparisons package ≤ chunkSizeAim)
  length : st.curPackage.length ≤ MAX_CHUNKS_PER_PACKAGE
  comparisons : comparisons st.curPackage = st.curComparisons
  le : st.curComparisons ≤ chunkSizeAim

theorem comparisons_append (package : Package) (chunks : ChunkPair) :
    comparisons (package ++ [chunks]) = comparisons package + chunkComparisons chunks := by
  simp [comparisons]

theorem chunkComparisons_whole {block : CommonBlock} {size1 size2 : ℕ} {chunks : ChunkPair}
    (h : chunkInfo dpIds blockLookups block ((0, size1), (0, size2)) = some chunks) :
    chunkComparisons chunks = size1 * size2 := by
  obtain ⟨⟨-, hrange1, -⟩, -, hrange2, -⟩ := of_chunkInfo h
  rw [chunkComparisons, hrange1, hrange2]
  rfl

theorem shaped_packBlock {st st' : Packing} {block : CommonBlock} (hst : Shaped chunkSizeAim st)
    (h : packBlock split dpBlockSizes dpIds blockLookups chunkSizeAim st block = some st') :
    Shaped chunkSizeAim st' := by
  have hcur : st.curPackage ≠ [] → st.curPackage ≠ [] ∧ (1 < st.curPackage.length →
      st.curPackage.length ≤ MAX_CHUNKS_PER_PACKAGE ∧
        comparisons st.curPackage ≤ chunkSizeAim) := by
    intro hne
    have hle := hst.le
    rw [← hst.comparisons] at hle
    exact ⟨hne, fun _ => ⟨hst.length, hle⟩⟩
  obtain ⟨size1, size2, -, -, hcases⟩ := packBlock_cases h
  rcases hcases with ⟨-, chunks, -, hpackages, hempty, hcount⟩ | ⟨hsmall, chunk, hchunk, hcases⟩
  · have hzero : st'.curComparisons = 0 := by
      rcases hcount with hreset | ⟨hnone, hsame⟩
      · exact hreset
      · rw [hsame, ← hst.comparisons, hnone]
        rfl
    refine ⟨fun package hpackage => ?_, ?_, ?_, ?_⟩
    · rw [hpackages, List.mem_append, mem_finish] at hpackage
      rcases hpackage with (hmem | ⟨rfl, hne⟩) | hmem
      · exact hst.packages package hmem
      · exact hcur hne
      · obtain ⟨c, -, rfl⟩ := List.mem_map.mp hmem
        exact ⟨List.cons_ne_nil _ _, fun hlong => absurd hlong (lt_irrefl _)⟩
    · rw [hempty]
      exact Nat.zero_le _
    · rw [hempty, hzero]
      rfl
    · rw [hzero]
      exact Nat.zero_le _
  have hwhole := chunkComparisons_whole hchunk
  rcases hcases with ⟨hfits, hroom, rfl⟩ | ⟨hfull, rfl⟩
  · refine ⟨hst.packages, ?_, ?_, hfits⟩
    · rw [List.length_append]
      exact hroom
    · rw [comparisons_append, hwhole, hst.comparisons]
  · -- the current package is not empty, as a small block fits into an empty one
    have hne : st.curPackage ≠ [] := by
      intro hnone
      apply hfull
      have hzero : st.curComparisons = 0 := by
        rw [← hst.comparisons, hnone]
        rfl
      rw [hzero, hnone]
      exact ⟨by omega, by decide⟩
    refine ⟨fun package hpackage => ?_, ?_, ?_, hsmall⟩
    · rcases List.mem_append.mp hpackage with hmem | hmem
      · exact hst.packages package hmem
      · rw [List.mem_singleton.mp hmem]
        exact hcur hne
    · exact Nat.one_le_iff_ne_zero.mpr (by decide)
    · have hsingle := comparisons_append [] chunk
      rw [List.nil_append, hwhole] at hsingle
      rw [hsingle]
      exact Nat.zero_add _

theorem shaped_of_createWorkPackages {blocks : List CommonBlock} {packages : List Package}
    (h : createWorkPackages split blocks dpBlockSizes dpIds blockLookups chunkSizeAim =
      some packages) {package : Package} (hpackage : package ∈ packages) :
    package ≠ [] ∧ (1 < package.length → package.length ≤ MAX_CHUNKS_PER_PACKAGE ∧
      comparisons package ≤ chunkSizeAim) := by
  simp only [createWorkPackages, Option.bind_eq_bind, Option.bind_eq_some_iff,
    Option.pure_def] at h
  obtain ⟨st, hfold, h⟩ := h
  have hfinish : st.finish = packages := Option.some.inj h
  have hempty : Shaped chunkSizeAim ⟨[], [], 0⟩ :=
    ⟨by simp, Nat.zero_le _, rfl, Nat.zero_le _⟩
  have hst : Shaped chunkSizeAim st :=
    foldlM_some_induction (fun _ _ _ => shaped_packBlock) hempty hfold
  rw [← hfinish, mem_finish] at hpackage
  rcases hpackage with hmem | ⟨rfl, hne⟩
  · exact hst.packages package hmem
  · have hle := hst.le
    rw [← hst.comparisons] at hle
    exact ⟨hne, fun _ => ⟨hst.length, hle⟩⟩

end Shape

section Fetch
variable {db : Database} {dpIds : List DpId} {size : ℕ} {encodings : DpId → List Bytes}

section Scheduled
variable (h : StoredBlocks db dpIds size encodings) (hdistinct : dpIds.Nodup) {so : SetOrder}
  {split : SplitToChunks} {chunkSizeAim : ℕ} (haim : 1 ≤ chunkSizeAim) {packages : List Package}
  (hscheduled : Scheduled so split db dpIds chunkSizeAim packages) {package : Package}
  (hpackage : package ∈ packages) {chunks : ChunkPair} (hchunks : chunks ∈ package)
include h hdistinct hscheduled hpackage hchunks

theorem mem_pieces : chunks.1.dataproviderId ∈ dpIds ∧ chunks.2.dataproviderId ∈ dpIds ∧
    (chunks.1.range, chunks.2.range) ∈ pieces split chunkSizeAim
      (blockEntityIds db chunks.1.dataproviderId chunks.1.blockId).length
      (blockEntityIds db chunks.2.dataproviderId chunks.2.blockId).length := by
  obtain ⟨blocks, hblocks, hpackages⟩ := hscheduled.run
  obtain ⟨blocks', hblocks', -, hcommon⟩ := (blockMetadata db dpIds hdistinct).getCommonBlocks_eq so
  obtain rfl := Option.some.inj (hblocks'.symm.trans hblocks)
  obtain ⟨block, hblock, size1, size2, hsize1, hsize2, piece, hpiece, hchunk⟩ :=
    (mem_packages hpackages).mp ⟨package, hpackage, hchunks⟩
  obtain ⟨⟨hdp1, hrange1, hlookup1⟩, hdp2, hrange2, hlookup2⟩ := of_chunkInfo hchunk
  have hpair : block.2 ∈ combinations2 dpIds := ((hcommon block).mp hblock).1
  obtain ⟨hmem1, hmem2⟩ := mem_of_mem_combinations2 hpair
  have hlength1 := (length_of_lookup h hmem1 hsize1 hlookup1).1
  have hlength2 := (length_of_lookup h hmem2 hsize2 hlookup2).1
  rw [hdp1, hdp2, hrange1, hrange2, hlength1, hlength2]
  exact ⟨hmem1, hmem2, hpiece⟩

theorem chunkIds_of_long (hlong : 1 < package.length) : ∀ chunk ∈ [chunks.1, chunks.2],
    chunk.dataproviderId ∈ dpIds ∧ chunkIds db chunk ≠ [] ∧
      chunkIds db chunk = blockEntityIds db chunk.dataproviderId chunk.blockId := by
  obtain ⟨hmem1, hmem2, -⟩ := mem_pieces h hdistinct hscheduled hpackage hchunks
  exact chunkIds_of_wholeBlock h hscheduled hpackage hlong hchunks ⟨hmem1, hmem2⟩

include haim in
/-- Comparisons of a chunk pair are those of records on both sides. -/
theorem chunkComparisons_pos_iff :
    0 < chunkComparisons chunks ↔ chunkIds db chunks.1 ≠ [] ∧ chunkIds db chunks.2 ≠ [] := by
  obtain ⟨-, -, hpiece⟩ := mem_pieces h hdistinct hscheduled hpackage hchunks
  rw [chunkIds_ne_nil_iff, chunkIds_ne_nil_iff]
  constructor
  · intro hpos
    have hrange1 := Nat.pos_of_mul_pos_right hpos
    have hrange2 := Nat.pos_of_mul_pos_left hpos
    -- the first cell of the piece lies in the rectangle of the two blocks
    have hcell : (chunks.1.range.1, chunks.2.range.1) ∈
        cells (chunks.1.range, chunks.2.range) := by
      rw [mem_cells]
      dsimp only
      omega
    have hlt := (pieces_tiles split haim _ _).lt_of_mem hpiece hcell
    omega
  · rintro ⟨⟨hrange1, -⟩, hrange2, -⟩
    exact Nat.mul_pos (by omega) (by omega)

end Scheduled

theorem forall₂_getEncodingChunks {package : Package} {encodingSize : ℤ}
    {fetched : List (FetchedChunk × FetchedChunk)}
    (h : getEncodingChunks db package encodingSize = .ok fetched) :
    List.Forall₂ (fun chunks pair => pair.1.chunkInfo = chunks.1 ∧ pair.2.chunkInfo = chunks.2)
      package fetched := by
  obtain ⟨blocks, -, hpairs⟩ := bind_eq_ok.mp h
  refine (mapM_eq_ok.mp hpairs).imp ?_
  intro chunks pair hboth
  obtain ⟨left, hleft, hboth⟩ := bind_eq_ok.mp hboth
  obtain ⟨right, hright, hboth⟩ := bind_eq_ok.mp hboth
  obtain rfl := Except.ok.inj hboth
  exact ⟨(fetchedChunk_eq_ok.mp hleft).1, (fetchedChunk_eq_ok.mp hright).1⟩

/-- A package with several chunk pairs is fetched by block, and the ranges are the blocks. -/
theorem comparesRanges_of_long (h : StoredBlocks db dpIds size encodings) {package : Package}
    (hlong : 1 < package.length) (hsides : ∀ chunks ∈ package, ∀ chunk ∈ [chunks.1, chunks.2],
      chunk.dataproviderId ∈ dpIds ∧ chunkIds db chunk ≠ [] ∧
        chunkIds db chunk = blockEntityIds db chunk.dataproviderId chunk.blockId)
    (hpos : ∀ chunks ∈ package, 0 < chunkComparisons chunks) :
    ComparesRanges db size encodings package := by
  have hfetch : packageWithEncodingData db size package = getEncodingChunks db package size := by
    rw [packageWithEncodingData, if_pos hlong]
  have hside : ∀ c ∈ package.flatMap (fun pair => [pair.1, pair.2]),
      (∃ encodings, StoredRows db c.dataproviderId size encodings) ∧
        blockEntityIds db c.dataproviderId c.blockId ≠ [] := by
    intro c hc
    obtain ⟨pair, hpair, hc⟩ := List.mem_flatMap.mp hc
    obtain ⟨hdp, hne, hids⟩ := hsides pair hpair c hc
    exact ⟨⟨_, h.rows _ hdp⟩, hids ▸ hne⟩
  refine ⟨fun fetched hfetched => ?_, ?_⟩
  · rw [hfetch] at hfetched
    have hall := List.forall₂_iff_zip.mp (forall₂_getEncodingChunks hfetched)
    refine List.forall₂_iff_zip.mpr ⟨hall.1, fun {chunks pair} hmem => ?_⟩
    obtain ⟨hchunks, hpair⟩ := List.of_mem_zip hmem
    obtain ⟨left, right⟩ := pair
    obtain ⟨hinfo1, hinfo2⟩ := hall.2 hmem
    have hholds : ∀ fetchedChunk ∈ [left, right], ∀ chunk ∈ [chunks.1, chunks.2],
        fetchedChunk.chunkInfo = chunk → HoldsRange db size encodings chunk fetchedChunk := by
      intro fetchedChunk hfetchedChunk chunk hchunk hinfo
      obtain ⟨hdp, -, hids⟩ := hsides chunks hchunks chunk hchunk
      obtain ⟨hentityIds, hencodings⟩ := of_getEncodingChunks (h.rows _ hdp) hfetched hpair
        hfetchedChunk (congrArg ChunkInfo.dataproviderId hinfo)
      rw [hinfo, ← hids] at hentityIds
      exact ⟨hinfo, .inl hentityIds, hencodings⟩
    exact ⟨hholds left (by simp) chunks.1 (by simp) hinfo1,
      hholds right (by simp) chunks.2 (by simp) hinfo2⟩
  · rw [hfetch]
    exact iff_of_true (getEncodingChunks_succeeds hside) hpos

theorem comparesRanges_of_single (h : StoredBlocks db dpIds size encodings) {chunks : ChunkPair}
    (hdp1 : chunks.1.dataproviderId ∈ dpIds) (hdp2 : chunks.2.dataproviderId ∈ dpIds)
    (hpos : 0 < chunkComparisons chunks ↔
      chunkIds db chunks.1 ≠ [] ∧ chunkIds db chunks.2 ≠ []) :
    ComparesRanges db size encodings [chunks] := by
  have hfetch : packageWithEncodingData db size [chunks] = do
      let chunkDp1 ← fetchSingleChunk db size chunks.1
      let chunkDp2 ← fetchSingleChunk db size chunks.2
      return [(chunkDp1, chunkDp2)] := rfl
  have hsingle : ∀ {chunk : ChunkInfo} {fetched : FetchedChunk}, chunk.dataproviderId ∈ dpIds →
      (fetchSingleChunk db size chunk = .ok fetched ↔ chunkIds db chunk ≠ [] ∧
        fetched = ⟨chunk, (chunkIds db chunk).dedup, (chunkIds db chunk).dedup.map fun i =>
          (record size (encodings chunk.dataproviderId) i).2⟩) := by
    intro chunk fetched hdp
    rw [fetchSingleChunk_eq (h.rows _ hdp)]
    split_ifs with hempty
    · simp [hempty]
    · simp only [Except.ok.injEq, hempty, ne_eq, not_false_eq_true, true_and]
      exact eq_comm
  refine ⟨fun fetched hfetched => ?_, ?_⟩
  · rw [hfetch] at hfetched
    obtain ⟨left, hleft, hfetched⟩ := bind_eq_ok.mp hfetched
    obtain ⟨right, hright, hfetched⟩ := bind_eq_ok.mp hfetched
    obtain rfl := Except.ok.inj hfetched
    obtain ⟨-, rfl⟩ := (hsingle hdp1).mp hleft
    obtain ⟨-, rfl⟩ := (hsingle hdp2).mp hright
    exact .cons ⟨⟨rfl, .inr rfl, rfl⟩, rfl, .inr rfl, rfl⟩ .nil
  · have hone : (∀ c ∈ [chunks], 0 < chunkComparisons c) ↔
        chunkIds db chunks.1 ≠ [] ∧ chunkIds db chunks.2 ≠ [] := by
      rw [List.forall_mem_singleton]
      exact hpos
    rw [hone, hfetch]
    simp only [bind_eq_ok, hsingle hdp1, hsingle hdp2]
    constructor
    · rintro ⟨_, _, ⟨hne1, -⟩, _, ⟨hne2, -⟩, -⟩
      exact ⟨hne1, hne2⟩
    · rintro ⟨hne1, hne2⟩
      exact ⟨_, _, ⟨hne1, rfl⟩, _, ⟨hne2, rfl⟩, rfl⟩

theorem comparesRanges (h : StoredBlocks db dpIds size encodings) (hdistinct : dpIds.Nodup)
    {so : SetOrder} {split : SplitToChunks} {chunkSizeAim : ℕ} (haim : 1 ≤ chunkSizeAim)
    {packages : List Package} (hscheduled : Scheduled so split db dpIds chunkSizeAim packages)
    {package : Package} (hpackage : package ∈ packages) (hne : package ≠ []) :
    ComparesRanges db size encodings package := by
  by_cases hlong : 1 < package.length
  · have hsides := fun chunks (hchunks : chunks ∈ package) =>
      chunkIds_of_long h hdistinct hscheduled hpackage hchunks hlong
    refine comparesRanges_of_long h hlong hsides fun chunks hchunks => ?_
    rw [chunkComparisons_pos_iff h hdistinct haim hscheduled hpackage hchunks]
    exact ⟨(hsides chunks hchunks chunks.1 (by simp)).2.1,
      (hsides chunks hchunks chunks.2 (by simp)).2.1⟩
  · have hpos := List.length_pos_iff.mpr hne
    have hlength : package.length = 1 := by omega
    obtain ⟨chunks, rfl⟩ := List.length_eq_one_iff.mp hlength
    have hmem : chunks ∈ [chunks] := List.mem_singleton_self chunks
    obtain ⟨hdp1, hdp2, -⟩ := mem_pieces h hdistinct hscheduled hpackage hmem
    exact comparesRanges_of_single h hdp1 hdp2
      (chunkComparisons_pos_iff h hdistinct haim hscheduled hpackage hmem)

end Fetch

/-- No package is empty, and those with several chunk pairs are small and have whole blocks. So
the tasks compare the records in the ranges of the chunk pairs, however they fetch them. -/
theorem packages_shape (m : BlockMetadata) (so : SetOrder) (split : SplitToChunks)
    (chunkSizeAim : ℕ) (haim : 1 ≤ chunkSizeAim) :
    ∃ blocks packages, getCommonBlocks so m.sizes m.dpIds = some blocks ∧
      createWorkPackages split blocks m.sizes m.dpIds m.lookups chunkSizeAim = some packages ∧
      (∀ package ∈ packages,
        package ≠ [] ∧ (1 < package.length → Bundled m chunkSizeAim package)) ∧
      ∀ db size encodings, StoredBlocks db m.dpIds size encodings →
        retrieveBlockedDatasetSizesAndLookup db m.dpIds = (m.sizes, m.lookups) →
        ∀ package ∈ packages, ComparesRanges db size encodings package := by
  obtain ⟨blocks, packages, hblocks, hpackages, -⟩ := m.tagged_packages so split haim
  refine ⟨blocks, packages, hblocks, hpackages, fun package hpackage => ?_, ?_⟩
  · obtain ⟨hne, hshape⟩ := shaped_of_createWorkPackages hpackages hpackage
    refine ⟨hne, fun hlong => ?_⟩
    obtain ⟨hlength, hcomparisons⟩ := hshape hlong
    refine ⟨hlength, hcomparisons, fun chunks hchunks => ?_⟩
    obtain ⟨block, size1, size2, hsize1, hsize2, hchunk⟩ :=
      wholeBlock_of_createWorkPackages hpackages hpackage hlong hchunks
    obtain ⟨⟨hdp1, hrange1, hlookup1⟩, hdp2, hrange2, hlookup2⟩ := of_chunkInfo hchunk
    rw [← hdp1] at hsize1 hlookup1
    rw [← hdp2] at hsize2 hlookup2
    exact ⟨⟨block.1, size1, hsize1, hlookup1, hrange1⟩, block.1, size2, hsize2, hlookup2, hrange2⟩
  · intro db size encodings hstored hretrieved package hpackage
    have hscheduled : Scheduled so split db m.dpIds chunkSizeAim packages := by
      refine ⟨⟨blocks, ?_⟩⟩
      rw [hretrieved]
      exact ⟨hblocks, hpackages⟩
    have hne := (shaped_of_createWorkPackages hpackages hpackage).1
    exact comparesRanges hstored m.distinct haim hscheduled hpackage hne

theorem packages_shape_oneToTwo : ∃ packages,
    Scheduled .same unitSplit oneToTwo [1, 2] 100 packages ∧
      ∀ package ∈ packages, package ≠ [] ∧
        (1 < package.length → Bundled (blockMetadata oneToTwo [1, 2] (by decide)) 100 package) ∧
        ComparesRanges oneToTwo 1 equalEncodings package := by
  obtain ⟨blocks, packages, hblocks, hpackages, hshape, hranges⟩ :=
    packages_shape (blockMetadata oneToTwo [1, 2] (by decide)) .same unitSplit 100 (by decide)
  refine ⟨packages, ⟨⟨blocks, hblocks, hpackages⟩⟩, fun package hpackage => ?_⟩
  obtain ⟨hne, hbundled⟩ := hshape package hpackage
  exact ⟨hne, hbundled,
    hranges oneToTwo 1 equalEncodings storedDatasets_oneToTwo.storedBlocks rfl package hpackage⟩

end EntityService.Tasks
