import EntityService.Lib.PairSums
import EntityService.Service.Storage
import EntityService.Tasks.PackageShape
import EntityService.Tasks.Progress

/-! The total number of comparisons of a project, against which the progress of its runs is
reported. The database groups the blocks by name, the scheduler by pairs of data providers. -/
namespace EntityService
open Lib Database

/-- The order in which PostgreSQL aggregates the counts of a block, which it leaves open. -/
structure AggOrder where
  order : BlockName → List ℤ → List ℤ
  perm : ∀ name counts, (order name counts).Perm counts

namespace Database

def providerIds (db : Database) (projectId : ProjectId) : List DpId :=
  (db.dataproviders.filter fun d => d.project = projectId).map DataproviderRow.id

def getTotalComparisonsForProject (agg : AggOrder) (db : Database) (projectId : ProjectId) : ℤ :=
  let rows := db.blocks.filter fun r => r.dp ∈ db.providerIds projectId
  let queryResults := (Dict.groupBy (fun r => charPad 64 r.blockName) rows).entries.map fun block =>
    (block.1, agg.order block.1 (block.2.map BlockRow.count))
  (queryResults.map fun block =>
    ((Tasks.combinations2 block.2).map fun c => c.1 * c.2).sum).sum

end Database

namespace Tasks

/-- The name of a block as the scheduler reads it. -/
def readName (r : BlockRow) : BlockName := strip (charPad 64 r.blockName)

/-- Each data provider has at most one row for a block name, with a positive count. Names that
are stored apart are read apart. -/
structure NamedBlocks (db : Database) (dpIds : List DpId) : Prop where
  once : ∀ dpId ∈ dpIds,
    ((db.blocks.filter fun r => r.dp = dpId).map fun r => charPad 64 r.blockName).Nodup
  apart : ∀ r ∈ db.blocks, ∀ r' ∈ db.blocks, r.dp ∈ dpIds → r'.dp ∈ dpIds →
    readName r = readName r' → charPad 64 r.blockName = charPad 64 r'.blockName
  positive : ∀ r ∈ db.blocks, r.dp ∈ dpIds → 0 < r.count

/-- Block names without spaces, which are all that the uploads write, are read as they are. -/
theorem namedBlocks_of_clean {db : Database} {dpIds : List DpId}
    (hclean : ∀ r ∈ db.blocks, r.dp ∈ dpIds → Clean r.blockName)
    (honce : ∀ dpId ∈ dpIds,
      ((db.blocks.filter fun r => r.dp = dpId).map BlockRow.blockName).Nodup)
    (hpositive : ∀ r ∈ db.blocks, r.dp ∈ dpIds → 0 < r.count) : NamedBlocks db dpIds := by
  have hread : ∀ r ∈ db.blocks, r.dp ∈ dpIds → readName r = r.blockName := fun r hr hdp =>
    strip_charPad (hclean r hr hdp) 64
  refine ⟨fun dpId hdp => ?_, fun r hr r' hr' hdp hdp' heq => ?_, hpositive⟩
  · refine List.pairwise_map.mpr ((List.pairwise_map.mp (honce dpId hdp)).imp_of_mem ?_)
    intro r r' hr hr' hne heq
    obtain ⟨hmem, hsame⟩ := List.mem_filter.mp hr
    obtain ⟨hmem', hsame'⟩ := List.mem_filter.mp hr'
    have hdpId : r.dp = dpId := of_decide_eq_true hsame
    have hdpId' : r'.dp = dpId := of_decide_eq_true hsame'
    have hnames : readName r = readName r' := congrArg strip heq
    rw [hread r hmem (hdpId ▸ hdp), hread r' hmem' (hdpId' ▸ hdp)] at hnames
    exact hne hnames
  · rw [hread r hr hdp, hread r' hr' hdp'] at heq
    rw [heq]

theorem sum_combinations2 {α M : Type*} [AddCommMonoid M] (f : α → α → M) (l : List α) :
    ((combinations2 l).map fun c => f c.1 c.2).sum = pairSum f l := by
  induction l with
  | nil => rfl
  | cons x l ih =>
    rw [combinations2, List.map_append, List.sum_append, List.map_map, ih, pairSum]
    rfl

section Scheduled
variable {split : SplitToChunks} {dpBlockSizes : BlockSizes} {dpIds : List DpId}
  {blockLookups : BlockLookups} {chunkSizeAim : ℕ}

def blockComparisons (dpBlockSizes : BlockSizes) (block : CommonBlock) : ℕ :=
  (lookup dpBlockSizes block.2.1 block.1).getD 0 * (lookup dpBlockSizes block.2.2 block.1).getD 0

theorem sum_blockChunks (haim : 1 ≤ chunkSizeAim) (block : CommonBlock) (chunks : List ChunkPair)
    (h : blockChunks split dpBlockSizes dpIds blockLookups chunkSizeAim block = some chunks) :
    (chunks.map chunkComparisons).sum = blockComparisons dpBlockSizes block := by
  simp only [blockChunks, Option.bind_eq_bind, Option.bind_eq_some_iff] at h
  obtain ⟨size1, hsize1, size2, hsize2, hchunks⟩ := h
  have hareas : chunks.map chunkComparisons = (pieces split chunkSizeAim size1 size2).map fun p =>
      (p.1.2 - p.1.1) * (p.2.2 - p.2.1) := by
    refine map_of_mapM_eq_some (fun p c hc => ?_) hchunks
    obtain ⟨⟨-, hrange1, -⟩, -, hrange2, -⟩ := of_chunkInfo hc
    rw [chunkComparisons, hrange1, hrange2]
  rw [hareas, (pieces_tiles split haim size1 size2).sum_area, blockComparisons, hsize1, hsize2]
  rfl

/-- The packages have the record pairs of the blocks, however these are cut. -/
theorem sum_comparisons (haim : 1 ≤ chunkSizeAim) {blocks : List CommonBlock}
    {packages : List Package}
    (h : createWorkPackages split blocks dpBlockSizes dpIds blockLookups chunkSizeAim =
      some packages) :
    (packages.map comparisons).sum = (blocks.map (blockComparisons dpBlockSizes)).sum := by
  have hflatten := createWorkPackages_flatten split dpBlockSizes dpIds blockLookups chunkSizeAim
    blocks
  rw [h, Option.map_some] at hflatten
  obtain ⟨chunks, hchunks, hflat⟩ := Option.map_eq_some_iff.mp hflatten.symm
  have hpackages : (packages.map comparisons).sum =
      (packages.flatten.map chunkComparisons).sum := by
    rw [List.map_flatten, List.sum_flatten, List.map_map]
    rfl
  have hblocks : chunks.map (fun c => (c.map chunkComparisons).sum) =
      blocks.map (blockComparisons dpBlockSizes) :=
    map_of_mapM_eq_some (fun block c hc => sum_blockChunks haim block c hc) hchunks
  rw [hpackages, ← hflat, List.map_flatten, List.sum_flatten, List.map_map, ← hblocks]
  rfl

/-- The number of record pairs of two data providers in a block, none unless both have it. -/
def pairsInBlock (dpBlockSizes : BlockSizes) (name : BlockName) (dp1 dp2 : DpId) : ℕ :=
  (Option.map₂ (· * ·) (lookup dpBlockSizes dp1 name) (lookup dpBlockSizes dp2 name)).getD 0

theorem sum_commonBlocksOfPair (so : SetOrder) {names : Finset BlockName} (dps : DpId × DpId)
    (blocks : List CommonBlock) (hnames : ∀ dp name, (lookup dpBlockSizes dp name).isSome →
      name ∈ names)
    (h : commonBlocksOfPair so dpBlockSizes dps = some blocks) :
    (blocks.map (blockComparisons dpBlockSizes)).sum =
      ∑ name ∈ names, pairsInBlock dpBlockSizes name dps.1 dps.2 := by
  obtain ⟨dp1, dp2⟩ := dps
  simp only [commonBlocksOfPair, Option.bind_eq_bind, Option.bind_eq_some_iff, Option.pure_def] at h
  obtain ⟨sizes1, hsizes1, sizes2, hsizes2, h⟩ := h
  obtain rfl := Option.some.inj h
  let common := sizes1.keys.filter fun b => b ∈ sizes2.keys
  have hcommon : common.Nodup := sizes1.nodup_keys.filter _
  have hlookup1 : ∀ name, lookup dpBlockSizes dp1 name = sizes1.get? name := by
    intro name
    rw [lookup, hsizes1]
    rfl
  have hlookup2 : ∀ name, lookup dpBlockSizes dp2 name = sizes2.get? name := by
    intro name
    rw [lookup, hsizes2]
    rfl
  have hmem : ∀ name, name ∈ common ↔
      ∃ size1 size2, sizes1.get? name = some size1 ∧ sizes2.get? name = some size2 := by
    intro name
    rw [List.mem_filter, decide_eq_true_eq, Dict.mem_keys_iff, Dict.mem_keys_iff]
    exact exists_and_exists_comm
  have hpairs : ∀ name ∈ common.toFinset, blockComparisons dpBlockSizes (name, dp1, dp2) =
      pairsInBlock dpBlockSizes name dp1 dp2 := by
    intro name hname
    obtain ⟨size1, size2, hsize1, hsize2⟩ := (hmem name).mp (List.mem_toFinset.mp hname)
    rw [blockComparisons, pairsInBlock, hlookup1, hlookup2, hsize1, hsize2]
    rfl
  have hsubset : common.toFinset ⊆ names := by
    intro name hname
    obtain ⟨size1, -, hsize1, -⟩ := (hmem name).mp (List.mem_toFinset.mp hname)
    apply hnames dp1
    rw [hlookup1, hsize1]
    rfl
  have hzero : ∀ name ∈ names, name ∉ common.toFinset →
      pairsInBlock dpBlockSizes name dp1 dp2 = 0 := by
    intro name _ hname
    rw [List.mem_toFinset, hmem] at hname
    rw [pairsInBlock, hlookup1, hlookup2]
    cases hsize1 : sizes1.get? name with
    | none => rfl
    | some size1 =>
      cases hsize2 : sizes2.get? name with
      | none => rfl
      | some size2 => exact absurd ⟨size1, size2, hsize1, hsize2⟩ hname
  have horder := ((so.perm dp1 dp2 common).map fun name =>
    blockComparisons dpBlockSizes (name, dp1, dp2)).sum_eq
  rw [List.map_map]
  exact horder.trans ((List.sum_toFinset _ hcommon).symm.trans
    ((Finset.sum_congr rfl hpairs).trans (Finset.sum_subset hsubset hzero)))

/-- The record pairs of all blocks, added up for each block over the data providers. -/
theorem sum_blockComparisons (so : SetOrder) {names : Finset BlockName} {blocks : List CommonBlock}
    (hnames : ∀ dp name, (lookup dpBlockSizes dp name).isSome → name ∈ names)
    (h : getCommonBlocks so dpBlockSizes dpIds = some blocks) :
    (blocks.map (blockComparisons dpBlockSizes)).sum =
      ∑ name ∈ names, pairSum (pairsInBlock dpBlockSizes name) dpIds := by
  simp only [getCommonBlocks, Option.bind_eq_bind, Option.bind_eq_some_iff, Option.pure_def] at h
  obtain ⟨blocksOfPairs, hblocks, h⟩ := h
  obtain rfl := Option.some.inj h
  have hpairs : blocksOfPairs.map (fun b => (b.map (blockComparisons dpBlockSizes)).sum) =
      (combinations2 dpIds).map fun dps =>
        ∑ name ∈ names, pairsInBlock dpBlockSizes name dps.1 dps.2 :=
    map_of_mapM_eq_some (fun dps b hb => sum_commonBlocksOfPair so dps b hnames hb) hblocks
  have hsum := sum_combinations2
    (fun dp1 dp2 => ∑ name ∈ names, pairsInBlock dpBlockSizes name dp1 dp2) dpIds
  rw [← pairSum_finsetSum, ← hsum, ← hpairs, List.map_flatten, List.sum_flatten, List.map_map]
  rfl

end Scheduled

section Database
variable {db : Database} {dpIds : List DpId}

def rowsOf (db : Database) (dpIds : List DpId) : List BlockRow :=
  db.blocks.filter fun r => r.dp ∈ dpIds

namespace NamedBlocks
variable (h : NamedBlocks db dpIds)
include h

theorem charPad_eq_iff {r r' : BlockRow} (hr : r ∈ rowsOf db dpIds) (hr' : r' ∈ rowsOf db dpIds) :
    charPad 64 r.blockName = charPad 64 r'.blockName ↔ readName r = readName r' := by
  obtain ⟨hmem, hdp⟩ := List.mem_filter.mp hr
  obtain ⟨hmem', hdp'⟩ := List.mem_filter.mp hr'
  exact ⟨congrArg strip,
    h.apart r hmem r' hmem' (of_decide_eq_true hdp) (of_decide_eq_true hdp')⟩

/-- Grouping the rows by the stored names is grouping them by the names that are read. -/
theorem sum_readName {M : Type*} [AddCommMonoid M] (f : List BlockRow → M) :
    ∑ stored ∈ ((rowsOf db dpIds).map fun r => charPad 64 r.blockName).toFinset,
        f ((rowsOf db dpIds).filter fun r => charPad 64 r.blockName = stored) =
      ∑ name ∈ ((rowsOf db dpIds).map readName).toFinset,
        f ((rowsOf db dpIds).filter fun r => readName r = name) := by
  have himage : ((rowsOf db dpIds).map readName).toFinset =
      ((rowsOf db dpIds).map fun r => charPad 64 r.blockName).toFinset.image strip := by
    ext name
    simp only [Finset.mem_image, List.mem_toFinset, List.mem_map, exists_exists_and_eq_and]
    rfl
  rw [himage, Finset.sum_image]
  · refine Finset.sum_congr rfl fun stored hstored => ?_
    obtain ⟨r', hr', rfl⟩ := List.mem_map.mp (List.mem_toFinset.mp hstored)
    refine congrArg f (List.filter_congr fun r hr => ?_)
    exact decide_eq_decide.mpr (h.charPad_eq_iff hr hr')
  · intro stored hstored stored' hstored' heq
    obtain ⟨r, hr, rfl⟩ := List.mem_map.mp (List.mem_toFinset.mp hstored)
    obtain ⟨r', hr', rfl⟩ := List.mem_map.mp (List.mem_toFinset.mp hstored')
    exact (h.charPad_eq_iff hr hr').mpr heq

theorem nodup_readName {dpId : DpId} (hdp : dpId ∈ dpIds) :
    ((db.blocks.filter fun r => r.dp = dpId).map readName).Nodup := by
  have honce := List.pairwise_map.mp (h.once dpId hdp)
  have hrow : ∀ r ∈ db.blocks.filter fun r => r.dp = dpId, r ∈ rowsOf db dpIds := by
    intro r hr
    obtain ⟨hmem, hsame⟩ := List.mem_filter.mp hr
    have hdpId : r.dp = dpId := of_decide_eq_true hsame
    exact List.mem_filter.mpr ⟨hmem, decide_eq_true (hdpId ▸ hdp)⟩
  refine List.pairwise_map.mpr (honce.imp_of_mem fun hr hr' hne heq => hne ?_)
  exact (h.charPad_eq_iff (hrow _ hr) (hrow _ hr')).mpr heq

/-- The row of a data provider for a name, if there is one, has the size that is scheduled. -/
theorem counts_eq {dpId : DpId} (hdp : dpId ∈ dpIds) (name : BlockName) :
    (((db.blocks.filter fun r => r.dp = dpId).filter fun r => readName r = name).map
        BlockRow.count) =
      ((lookup (retrieveBlockedDatasetSizesAndLookup db dpIds).1 dpId name).map
        fun n => (n : ℤ)).toList := by
  have hnodup := h.nodup_readName hdp
  have hpairs : ((db.getBlockMetadata dpId).map fun r => (r.1, r.2.2.toNat)) =
      (db.blocks.filter fun r => r.dp = dpId).map fun r => (readName r, r.count.toNat) := by
    rw [getBlockMetadata, List.map_map]
    rfl
  have hlookup : lookup (retrieveBlockedDatasetSizesAndLookup db dpIds).1 dpId name =
      (Dict.ofList ((db.blocks.filter fun r => r.dp = dpId).map
        fun r => (readName r, r.count.toNat))).get? name := by
    unfold lookup retrieveBlockedDatasetSizesAndLookup
    rw [get?_ofList_map _ hdp, ← hpairs]
    rfl
  rw [hlookup]
  by_cases hmem : name ∈ (db.blocks.filter fun r => r.dp = dpId).map readName
  · obtain ⟨r, hr, rfl⟩ := List.mem_map.mp hmem
    have hget : (Dict.ofList ((db.blocks.filter fun r => r.dp = dpId).map
        fun r => (readName r, r.count.toNat))).get? (readName r) = some r.count.toNat := by
      rw [Dict.get?_ofList]
      · exact List.mem_map.mpr ⟨r, hr, rfl⟩
      · rw [List.map_map]
        exact hnodup
    obtain ⟨hblock, hsame⟩ := List.mem_filter.mp hr
    have hdpId : r.dp = dpId := of_decide_eq_true hsame
    have hpos := h.positive r hblock (hdpId ▸ hdp)
    have hcast : (r.count.toNat : ℤ) = r.count := Int.toNat_of_nonneg hpos.le
    rw [filter_eq_singleton hnodup hr, hget]
    change [r.count] = [(r.count.toNat : ℤ)]
    rw [hcast]
  · have hget : (Dict.ofList ((db.blocks.filter fun r => r.dp = dpId).map
        fun r => (readName r, r.count.toNat))).get? name = none := by
      rw [Dict.get?_eq_none, Dict.mem_keys_ofList, List.map_map]
      exact hmem
    have hnone : ((db.blocks.filter fun r => r.dp = dpId).filter fun r => readName r = name) =
        [] := by
      refine List.filter_eq_nil_iff.mpr fun r hr heq => ?_
      exact hmem (List.mem_map.mpr ⟨r, hr, of_decide_eq_true heq⟩)
    rw [hnone, hget]
    rfl

/-- The counts of a name are the sizes of its block for the data providers that have it. -/
theorem perm_counts (hnodup : dpIds.Nodup) (name : BlockName) :
    (((rowsOf db dpIds).filter fun r => readName r = name).map BlockRow.count).Perm
      (dpIds.filterMap fun dpId =>
        (lookup (retrieveBlockedDatasetSizesAndLookup db dpIds).1 dpId name).map
          fun n => (n : ℤ)) := by
  have hperm := (perm_flatMap_filter BlockRow.dp (db.blocks.filter fun r => readName r = name)
    hnodup).map BlockRow.count
  have hcomm : ∀ p q : BlockRow → Prop, ∀ [DecidablePred p] [DecidablePred q],
      (db.blocks.filter fun r => p r).filter (fun r => q r) =
        (db.blocks.filter fun r => q r).filter fun r => p r := by
    intro p q _ _
    rw [List.filter_filter, List.filter_filter]
    exact List.filter_congr fun r _ => Bool.and_comm _ _
  rw [rowsOf, hcomm]
  refine hperm.trans (List.Perm.of_eq ?_)
  rw [List.map_flatMap, List.filterMap_eq_flatMap_toList]
  refine List.flatMap_congr fun dpId hdp => ?_
  rw [hcomm]
  exact h.counts_eq hdp name

/-- The total is the number of record pairs of all blocks and pairs of data providers. -/
theorem getTotalComparisonsForProject_eq (hnodup : dpIds.Nodup) {projectId : ProjectId}
    (hproject : dpIds.Perm (db.providerIds projectId)) (agg : AggOrder) :
    db.getTotalComparisonsForProject agg projectId =
      ((∑ name ∈ ((rowsOf db dpIds).map readName).toFinset,
        pairSum (pairsInBlock (retrieveBlockedDatasetSizesAndLookup db dpIds).1 name) dpIds :
          ℕ) : ℤ) := by
  have hrows : (db.blocks.filter fun r => r.dp ∈ db.providerIds projectId) = rowsOf db dpIds :=
    List.filter_congr fun r _ => decide_eq_decide.mpr hproject.mem_iff.symm
  have hcomm : ∀ c0 c1 : ℤ, c0 * c1 = c1 * c0 := mul_comm
  have hgroups := sum_groupBy (fun r => charPad 64 r.blockName)
    (fun rows => pairSum (fun c0 c1 : ℤ => c0 * c1) (rows.map BlockRow.count)) (rowsOf db dpIds)
  have hpairs : ∀ name : BlockName,
      pairSum (fun c0 c1 : ℤ => c0 * c1)
        (((rowsOf db dpIds).filter fun r => readName r = name).map BlockRow.count) =
      (pairSum (pairsInBlock (retrieveBlockedDatasetSizesAndLookup db dpIds).1 name) dpIds :
        ℕ) := by
    intro name
    have hcast := map_pairSum (Nat.castAddMonoidHom ℤ)
      (pairsInBlock (retrieveBlockedDatasetSizesAndLookup db dpIds).1 name) dpIds
    rw [pairSum_perm hcomm (h.perm_counts hnodup name), pairSum_filterMap]
    refine (pairSum_congr fun dp1 _ dp2 _ => ?_).trans hcast.symm
    rw [pairsInBlock]
    cases lookup (retrieveBlockedDatasetSizesAndLookup db dpIds).1 dp1 name with
    | none => rfl
    | some size1 =>
      cases lookup (retrieveBlockedDatasetSizesAndLookup db dpIds).1 dp2 name with
      | none => rfl
      | some size2 => exact (Nat.cast_mul size1 size2).symm
  have hblock : ∀ block : BlockName × List BlockRow,
      ((combinations2 (agg.order block.1 (block.2.map BlockRow.count))).map
        fun c => c.1 * c.2).sum =
      pairSum (fun c0 c1 : ℤ => c0 * c1) (block.2.map BlockRow.count) := by
    intro block
    rw [sum_combinations2 fun c0 c1 : ℤ => c0 * c1]
    exact pairSum_perm hcomm (agg.perm _ _)
  unfold getTotalComparisonsForProject
  dsimp only
  rw [hrows, List.map_map, Nat.cast_sum]
  have hreadName := h.sum_readName fun rows =>
    pairSum (fun c0 c1 : ℤ => c0 * c1) (rows.map BlockRow.count)
  refine Eq.trans ?_ (hgroups.trans (hreadName.trans (Finset.sum_congr rfl fun name _ =>
    hpairs name)))
  exact congrArg List.sum (List.map_congr_left fun block _ => hblock block)

end NamedBlocks

/-- What is scheduled has as many record pairs as the database counts. -/
theorem sum_comparisons_eq (h : NamedBlocks db dpIds) (hnodup : dpIds.Nodup)
    {projectId : ProjectId} (hproject : dpIds.Perm (db.providerIds projectId)) (agg : AggOrder)
    {so : SetOrder} {split : SplitToChunks} {chunkSizeAim : ℕ} (haim : 1 ≤ chunkSizeAim)
    {packages : List Package} (hscheduled : Scheduled so split db dpIds chunkSizeAim packages) :
    (((packages.map comparisons).sum : ℕ) : ℤ) =
      db.getTotalComparisonsForProject agg projectId := by
  obtain ⟨blocks, hblocks, hpackages⟩ := hscheduled.run
  have hnames : ∀ dp name,
      (lookup (retrieveBlockedDatasetSizesAndLookup db dpIds).1 dp name).isSome →
        name ∈ ((rowsOf db dpIds).map readName).toFinset := by
    intro dp name hsome
    obtain ⟨n, hlookup⟩ := Option.isSome_iff_exists.mp hsome
    obtain ⟨sizes, hsizes, hget⟩ := Option.bind_eq_some_iff.mp hlookup
    obtain ⟨dpId, hdp, heq⟩ := List.mem_map.mp (Dict.mem_of_get?_ofList hsizes)
    obtain ⟨rfl, rfl⟩ := Prod.mk.inj heq
    obtain ⟨block, hblock, heq⟩ := List.mem_map.mp (Dict.mem_of_get?_ofList hget)
    obtain ⟨r, hr, rfl⟩ := List.mem_map.mp hblock
    obtain ⟨rfl, -⟩ := Prod.mk.inj heq
    obtain ⟨hmem, hsame⟩ := List.mem_filter.mp hr
    have hdpId : r.dp = dpId := of_decide_eq_true hsame
    have hrow : r ∈ rowsOf db dpIds := List.mem_filter.mpr ⟨hmem, decide_eq_true (hdpId ▸ hdp)⟩
    exact List.mem_toFinset.mpr (List.mem_map.mpr ⟨r, hrow, rfl⟩)
  rw [sum_comparisons haim hpackages, sum_blockComparisons so hnames hblocks,
    h.getTotalComparisonsForProject_eq hnodup hproject agg]

/-- Once all data providers of a project have uploaded data, they are all scheduled. -/
theorem perm_getDataproviderIds {s : Service.Storage} {projectId : ProjectId}
    (hdone : ∀ d ∈ s.db.dataproviders, d.project = projectId → d.uploaded = .done) :
    (s.getDataproviderIds projectId).Perm (s.db.providerIds projectId) := by
  have hfilter : (s.db.dataproviders.filter fun d => d.project = projectId ∧ d.uploaded = .done) =
      s.db.dataproviders.filter fun d => d.project = projectId := by
    refine List.filter_congr fun d hd => decide_eq_decide.mpr ?_
    exact ⟨And.left, fun hproject => ⟨hproject, hdone d hd hproject⟩⟩
  rw [Service.Storage.getDataproviderIds, hfilter]
  exact List.perm_insertionSort _ _

/-- The task of a package compares no more record pairs than its ranges have. -/
theorem numComparisons_le {size : ℕ} {encodings : DpId → List Bytes} {package : Package}
    (h : ComparesRanges db size encodings package) {fetched : List (FetchedChunk × FetchedChunk)}
    (hfetched : Similarity.packageWithEncodingData db size package = .ok fetched)
    {compared : ComparedPackage} (hsizes : compared.map (fun c => (c.encDp1Size, c.encDp2Size)) =
      fetched.map fun pair => (pair.1.encodings.length, pair.2.encodings.length)) :
    numComparisons compared ≤ comparisons package := by
  have hcompared : numComparisons compared =
      (fetched.map fun pair => pair.1.encodings.length * pair.2.encodings.length).sum := by
    have hproducts := congrArg (List.map fun s : ℕ × ℕ => s.1 * s.2) hsizes
    rw [List.map_map, List.map_map] at hproducts
    exact congrArg List.sum hproducts
  have hside : ∀ {chunk : ChunkInfo} {fetchedChunk : FetchedChunk},
      HoldsRange db size encodings chunk fetchedChunk →
        fetchedChunk.encodings.length ≤ chunk.range.2 - chunk.range.1 := by
    intro chunk fetchedChunk hholds
    have hids : fetchedChunk.entityIds.length ≤ (Similarity.chunkIds db chunk).length := by
      rcases hholds.entityIds with heq | heq
      · rw [heq]
      · rw [heq]
        exact (List.dedup_sublist _).length_le
    rw [hholds.encodings, List.length_map]
    exact hids.trans (List.length_take_le _ _)
  rw [hcompared, comparisons]
  have hall := (h.holdsRange fetched hfetched).flip
  refine List.Forall₂.sum_le_sum (List.forall₂_map_left_iff.mpr
    (List.forall₂_map_right_iff.mpr (hall.imp ?_)))
  rintro pair chunks ⟨hleft, hright⟩
  exact Nat.mul_le_mul (hside hleft) (hside hright)

end Database
end Tasks
end EntityService
