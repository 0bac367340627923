import EntityService.Tasks.WorkPackages
import EntityService.Lib.Monadic

/-! The packages of a run cover every required comparison exactly once. The loop is
followed through the chunk pairs it has emitted so far, finished or not. -/
namespace EntityService.Tasks
open Lib

theorem mem_combinations2 {α : Type*} {l : List α} {x y : α} :
    (x, y) ∈ combinations2 l ↔ ∃ a b : ℕ, a < b ∧ l[a]? = some x ∧ l[b]? = some y := by
  induction l with
  | nil => simp [combinations2]
  | cons z l ih =>
    simp only [combinations2, List.mem_append, List.mem_map, Prod.mk.injEq, ih]
    constructor
    · rintro (⟨w, hw, rfl, rfl⟩ | ⟨a, b, hab, ha, hb⟩)
      · obtain ⟨b, hb⟩ := List.mem_iff_getElem?.mp hw
        exact ⟨0, b + 1, by omega, by simp, by simpa using hb⟩
      · exact ⟨a + 1, b + 1, by omega, by simpa using ha, by simpa using hb⟩
    · rintro ⟨a, b, hab, ha, hb⟩
      obtain ⟨b, rfl⟩ : ∃ c, b = c + 1 := ⟨b - 1, by omega⟩
      have hb' : l[b]? = some y := by simpa using hb
      cases a with
      | zero => exact Or.inl ⟨y, List.mem_of_getElem? hb', by simpa using ha, rfl⟩
      | succ a => exact Or.inr ⟨a, b, by omega, by simpa using ha, hb'⟩

theorem mem_of_mem_combinations2 {α : Type*} {l : List α} {x y : α}
    (h : (x, y) ∈ combinations2 l) : x ∈ l ∧ y ∈ l := by
  obtain ⟨a, b, -, ha, hb⟩ := mem_combinations2.mp h
  exact ⟨List.mem_of_getElem? ha, List.mem_of_getElem? hb⟩

theorem nodup_combinations2 {α : Type*} {l : List α} (h : l.Nodup) :
    (combinations2 l).Nodup := by
  induction l with
  | nil => exact List.nodup_nil
  | cons z l ih =>
    obtain ⟨hz, hl⟩ := List.nodup_cons.mp h
    refine (hl.map fun a b hab => (Prod.mk.inj hab).2).append (ih hl) ?_
    rintro ⟨x, y⟩ hx hy
    obtain ⟨w, -, he⟩ := List.mem_map.mp hx
    exact hz ((Prod.mk.inj he).1 ▸ (mem_of_mem_combinations2 hy).1)

/-- With distinct ids the index written into a chunk is the position of its provider. -/
theorem get?_dpindx {dpIds : List DpId} (h : dpIds.Nodup) {dp : DpId} {i : ℕ} :
    (Dict.ofList (dpIds.zip (List.range dpIds.length))).get? dp = some i ↔
      dpIds[i]? = some dp := by
  have hz : (dpIds.zip (List.range dpIds.length)).map Prod.fst = dpIds :=
    List.map_fst_zip (by simp)
  rw [Dict.get?_ofList (by rwa [hz]), List.mem_iff_getElem?]
  constructor
  · rintro ⟨n, hn⟩
    obtain ⟨hd, hr⟩ := List.getElem?_zip_eq_some.mp hn
    obtain ⟨_, hi⟩ := List.getElem?_eq_some_iff.mp hr
    rw [List.getElem_range] at hi
    exact (show n = i from hi) ▸ hd
  · intro hd
    refine ⟨i, List.getElem?_zip_eq_some.mpr ⟨hd, ?_⟩⟩
    obtain ⟨hi, -⟩ := List.getElem?_eq_some_iff.mp hd
    simp [hi]

section Loop
variable (split : SplitToChunks) (dpBlockSizes : BlockSizes) (dpIds : List DpId)
  (blockLookups : BlockLookups) (chunkSizeAim : ℕ)

/-- The range products that a block of two sizes is compared in. -/
def pieces (size1 size2 : ℕ) : List (Range × Range) :=
  if chunkSizeAim < size1 * size2 then split.run chunkSizeAim size1 size2
  else [((0, size1), (0, size2))]

theorem pieces_tiles {chunkSizeAim : ℕ} (h : 1 ≤ chunkSizeAim) (size1 size2 : ℕ) :
    Tiles size1 size2 (pieces split chunkSizeAim size1 size2) := by
  unfold pieces
  split_ifs with hn
  · have hpos : 0 < size1 * size2 := by omega
    exact split.tiles _ _ _ h (Nat.pos_of_mul_pos_right hpos) (Nat.pos_of_mul_pos_left hpos)
  · exact tiles_whole size1 size2

def blockChunks (block : CommonBlock) : Option (List ChunkPair) := do
  let size1 ← lookup dpBlockSizes block.2.1 block.1
  let size2 ← lookup dpBlockSizes block.2.2 block.1
  (pieces split chunkSizeAim size1 size2).mapM (chunkInfo dpIds blockLookups block)

/-- All chunk pairs emitted so far, the current package last. -/
def Packing.chunks (st : Packing) : List ChunkPair := st.packages.flatten ++ st.curPackage

theorem packBlock_chunks (st : Packing) (block : CommonBlock) :
    (packBlock split dpBlockSizes dpIds blockLookups chunkSizeAim st block).map Packing.chunks =
      (blockChunks split dpBlockSizes dpIds blockLookups chunkSizeAim block).map
        (st.chunks ++ ·) := by
  simp only [packBlock, blockChunks]
  cases lookup dpBlockSizes block.2.1 block.1 with
  | none => rfl
  | some size1 =>
    cases lookup dpBlockSizes block.2.2 block.1 with
    | none => rfl
    | some size2 =>
      simp only [Option.bind_eq_bind, Option.bind_some, pieces]
      split_ifs with hn hc hf
      · cases (split.run chunkSizeAim size1 size2).mapM (chunkInfo dpIds blockLookups block) with
        | none => rfl
        | some chunks => simp [Packing.chunks, ← List.flatMap_def]
      · cases (split.run chunkSizeAim size1 size2).mapM (chunkInfo dpIds blockLookups block) with
        | none => rfl
        | some chunks =>
          have he : st.curPackage = [] := List.length_eq_zero_iff.mp (by omega)
          simp [Packing.chunks, he, ← List.flatMap_def]
      all_goals
        cases hch : chunkInfo dpIds blockLookups block ((0, size1), (0, size2)) with
        | none => simp [hch]
        | some chunk => simp [hch, Packing.chunks]

theorem foldlM_packBlock_chunks (blocks : List CommonBlock) (st : Packing) :
    (blocks.foldlM (packBlock split dpBlockSizes dpIds blockLookups chunkSizeAim) st).map
        Packing.chunks =
      (blocks.mapM (blockChunks split dpBlockSizes dpIds blockLookups chunkSizeAim)).map
        (fun cs => st.chunks ++ cs.flatten) := by
  induction blocks generalizing st with
  | nil => simp
  | cons block blocks ih =>
    have hstep := packBlock_chunks split dpBlockSizes dpIds blockLookups chunkSizeAim st block
    simp only [List.foldlM_cons, List.mapM_cons]
    cases hp : packBlock split dpBlockSizes dpIds blockLookups chunkSizeAim st block with
    | none =>
      rw [hp] at hstep
      have hb := Option.map_eq_none_iff.mp hstep.symm
      simp [hb]
    | some st' =>
      rw [hp] at hstep
      obtain ⟨cs, hb, hcs⟩ := Option.map_eq_some_iff.mp hstep.symm
      simp only [Option.bind_eq_bind, Option.bind_some, hb, ih st', ← hcs]
      cases blocks.mapM (blockChunks split dpBlockSizes dpIds blockLookups chunkSizeAim) <;> simp

theorem finish_flatten (st : Packing) : st.finish.flatten = st.chunks := by
  unfold Packing.finish Packing.chunks
  split_ifs with h
  · simp
  · have he : st.curPackage = [] := List.length_eq_zero_iff.mp (by omega)
    simp [he]

/-- The chunk pairs of all packages are those of all blocks. -/
theorem createWorkPackages_flatten (blocks : List CommonBlock) :
    (createWorkPackages split blocks dpBlockSizes dpIds blockLookups chunkSizeAim).map
        List.flatten =
      (blocks.mapM (blockChunks split dpBlockSizes dpIds blockLookups chunkSizeAim)).map
        List.flatten := by
  have h := foldlM_packBlock_chunks split dpBlockSizes dpIds blockLookups chunkSizeAim blocks
    ⟨[], [], 0⟩
  simp only [createWorkPackages]
  cases hst : blocks.foldlM (packBlock split dpBlockSizes dpIds blockLookups chunkSizeAim)
      ⟨[], [], 0⟩ with
  | none => rw [hst] at h; simpa [Packing.chunks] using h
  | some st => rw [hst] at h; simpa [finish_flatten, Packing.chunks] using h

end Loop

/-- The block metadata of a project, as the scheduler reads it from the database. -/
structure BlockMetadata where
  dpIds : List DpId
  distinct : dpIds.Nodup
  sizes : BlockSizes
  lookups : BlockLookups
  known : ∀ dp ∈ dpIds, dp ∈ sizes.keys
  sameKeys : ∀ dp ∈ dpIds, ∀ name,
    (lookup sizes dp name).isSome = (lookup lookups dp name).isSome

/-- A comparison of two records within a block. -/
structure Comparison where
  leftDp : DpId
  leftPos : ℕ
  rightDp : DpId
  rightPos : ℕ
  block : BlockName
deriving DecidableEq

/-- The comparisons of a chunk pair that was made for a block. -/
def expand (c : BlockName × ChunkPair) : List Comparison :=
  (cells (c.2.1.range, c.2.2.range)).map fun p =>
    ⟨c.2.1.dataproviderId, p.1, c.2.2.dataproviderId, p.2, c.1⟩

namespace BlockMetadata
variable (m : BlockMetadata)

/-- An earlier and a later provider both have the block, and the positions lie in it. -/
def Required (c : Comparison) : Prop :=
  ∃ a b : ℕ, a < b ∧ m.dpIds[a]? = some c.leftDp ∧ m.dpIds[b]? = some c.rightDp ∧
    ∃ size1 size2, lookup m.sizes c.leftDp c.block = some size1 ∧
      lookup m.sizes c.rightDp c.block = some size2 ∧ c.leftPos < size1 ∧ c.rightPos < size2

/-- A chunk names its provider by id and by index, and that provider's row of the block. -/
def Carries (name : BlockName) (chunk : ChunkInfo) : Prop :=
  m.dpIds[chunk.datasetIndex]? = some chunk.dataproviderId ∧
    lookup m.lookups chunk.dataproviderId name = some chunk.blockId

/-- The block exists on both sides and the sides are an earlier and a later provider. -/
def Common (block : CommonBlock) : Prop :=
  block.2 ∈ combinations2 m.dpIds ∧ (lookup m.sizes block.2.1 block.1).isSome ∧
    (lookup m.sizes block.2.2 block.1).isSome

variable {m}

theorem commonBlocksOfPair_eq (so : SetOrder) {dps : DpId × DpId}
    (h : dps ∈ combinations2 m.dpIds) :
    ∃ blocks, commonBlocksOfPair so m.sizes dps = some blocks ∧ blocks.Nodup ∧
      ∀ block, block ∈ blocks ↔ block.2 = dps ∧ m.Common block := by
  obtain ⟨dp1, dp2⟩ := dps
  obtain ⟨h1, h2⟩ := mem_of_mem_combinations2 h
  obtain ⟨sizes1, hs1⟩ := Dict.mem_keys_iff.mp (m.known dp1 h1)
  obtain ⟨sizes2, hs2⟩ := Dict.mem_keys_iff.mp (m.known dp2 h2)
  have hp := so.perm dp1 dp2 (sizes1.keys.filter (fun b => b ∈ sizes2.keys))
  refine ⟨_, by simp [commonBlocksOfPair, hs1, hs2]; rfl, ?_, ?_⟩
  · exact (hp.nodup_iff.mpr (sizes1.nodup_keys.filter _)).map fun a b hab => (Prod.mk.inj hab).1
  · rintro ⟨name, d1, d2⟩
    simp only [List.mem_map, hp.mem_iff, List.mem_filter, decide_eq_true_eq, Prod.mk.injEq,
      Common, lookup]
    constructor
    · rintro ⟨b, ⟨hb1, hb2⟩, rfl, rfl, rfl⟩
      refine ⟨⟨rfl, rfl⟩, h, ?_, ?_⟩
      · simpa [hs1, Dict.get?_isSome] using hb1
      · simpa [hs2, Dict.get?_isSome] using hb2
    · rintro ⟨⟨rfl, rfl⟩, -, hb1, hb2⟩
      refine ⟨name, ⟨?_, ?_⟩, rfl, rfl, rfl⟩
      · simpa [hs1, Dict.get?_isSome] using hb1
      · simpa [hs2, Dict.get?_isSome] using hb2

theorem getCommonBlocks_eq (m : BlockMetadata) (so : SetOrder) :
    ∃ blocks, getCommonBlocks so m.sizes m.dpIds = some blocks ∧ blocks.Nodup ∧
      ∀ block, block ∈ blocks ↔ m.Common block := by
  choose! f hf hnodup hmem using fun dps (h : dps ∈ combinations2 m.dpIds) =>
    commonBlocksOfPair_eq so h
  refine ⟨(combinations2 m.dpIds).flatMap f, ?_, ?_, ?_⟩
  · rw [getCommonBlocks, mapM_eq_pure_map hf]
    simp [List.flatMap_def]
  · refine List.nodup_flatMap.mpr ⟨hnodup, ?_⟩
    refine (nodup_combinations2 m.distinct).pairwise_of_forall_ne fun p hp q hq hpq => ?_
    intro block hbp hbq
    exact hpq (((hmem p hp block).mp hbp).1.symm.trans ((hmem q hq block).mp hbq).1)
  · intro block
    simp only [List.mem_flatMap]
    constructor
    · rintro ⟨p, hp, hb⟩
      exact ((hmem p hp block).mp hb).2
    · exact fun hb => ⟨block.2, hb.1, (hmem block.2 hb.1 block).mpr ⟨rfl, hb⟩⟩

/-- A chunk pair of a common block carries the ids of its own providers and block rows. -/
theorem chunkInfo_eq {block : CommonBlock} (h : m.Common block) (ranges : Range × Range) :
    ∃ c, chunkInfo m.dpIds m.lookups block ranges = some c ∧ c.1.range = ranges.1 ∧
      c.2.range = ranges.2 ∧ c.1.dataproviderId = block.2.1 ∧ c.2.dataproviderId = block.2.2 ∧
      m.Carries block.1 c.1 ∧ m.Carries block.1 c.2 := by
  obtain ⟨name, dp1, dp2⟩ := block
  obtain ⟨hc, hs1, hs2⟩ := h
  obtain ⟨a, b, -, ha, hb⟩ := mem_combinations2.mp hc
  obtain ⟨h1, h2⟩ := mem_of_mem_combinations2 hc
  rw [m.sameKeys dp1 h1] at hs1
  rw [m.sameKeys dp2 h2] at hs2
  obtain ⟨block1, hb1⟩ := Option.isSome_iff_exists.mp hs1
  obtain ⟨block2, hb2⟩ := Option.isSome_iff_exists.mp hs2
  refine ⟨(⟨dp1, a, ranges.1, block1⟩, ⟨dp2, b, ranges.2, block2⟩), ?_, rfl, rfl, rfl, rfl,
    ⟨ha, hb1⟩, ⟨hb, hb2⟩⟩
  simp [chunkInfo, addDpIdToChunkInfo, (get?_dpindx m.distinct).mpr ha,
    (get?_dpindx m.distinct).mpr hb, hb1, hb2]

theorem blockChunks_eq (split : SplitToChunks) {chunkSizeAim : ℕ} (haim : 1 ≤ chunkSizeAim)
    {block : CommonBlock} (h : m.Common block) :
    ∃ cs, blockChunks split m.sizes m.dpIds m.lookups chunkSizeAim block = some cs ∧
      (∀ c ∈ cs, m.Carries block.1 c.1 ∧ m.Carries block.1 c.2) ∧
      (cs.flatMap fun c => expand (block.1, c)).Nodup ∧
      ∀ x, (x ∈ cs.flatMap fun c => expand (block.1, c)) ↔
        m.Required x ∧ (x.block, x.leftDp, x.rightDp) = block := by
  obtain ⟨size1, hs1⟩ := Option.isSome_iff_exists.mp h.2.1
  obtain ⟨size2, hs2⟩ := Option.isSome_iff_exists.mp h.2.2
  have ht := pieces_tiles split haim size1 size2
  choose g hg hr1 hr2 hd1 hd2 hc1 hc2 using fun r => chunkInfo_eq h r
  have hexpand : ((pieces split chunkSizeAim size1 size2).map g).flatMap
      (fun c => expand (block.1, c)) =
      ((pieces split chunkSizeAim size1 size2).flatMap cells).map fun p =>
        (⟨block.2.1, p.1, block.2.2, p.2, block.1⟩ : Comparison) := by
    simp [List.flatMap_map, List.map_flatMap, expand, hr1, hr2, hd1, hd2]
  refine ⟨(pieces split chunkSizeAim size1 size2).map g, ?_, ?_, ?_, ?_⟩
  · simp only [blockChunks, hs1, hs2, Option.bind_eq_bind, Option.bind_some]
    exact mapM_eq_pure_map fun r _ => hg r
  · intro c hc
    obtain ⟨r, -, rfl⟩ := List.mem_map.mp hc
    exact ⟨hc1 r, hc2 r⟩
  · rw [hexpand]
    refine ht.nodup.map fun p q hpq => ?_
    simp only [Comparison.mk.injEq] at hpq
    exact Prod.ext hpq.2.1 hpq.2.2.2.1
  · rintro ⟨dp1, i, dp2, j, name⟩
    rw [hexpand, List.mem_map]
    constructor
    · rintro ⟨⟨i', j'⟩, hp, he⟩
      simp only [Comparison.mk.injEq] at he
      obtain ⟨rfl, rfl, rfl, rfl, rfl⟩ := he
      obtain ⟨a, b, hab, ha, hb⟩ := mem_combinations2.mp h.1
      obtain ⟨hi, hj⟩ := (ht.mem i' j').mp hp
      exact ⟨⟨a, b, hab, ha, hb, size1, size2, hs1, hs2, hi, hj⟩, rfl⟩
    · rintro ⟨⟨a, b, -, -, -, s1, s2, h1, h2, hi, hj⟩, rfl⟩
      obtain rfl : s1 = size1 := Option.some.inj (h1.symm.trans hs1)
      obtain rfl : s2 = size2 := Option.some.inj (h2.symm.trans hs2)
      exact ⟨(i, j), (ht.mem i j).mpr ⟨hi, hj⟩, rfl⟩

theorem common_of_required {x : Comparison} (h : m.Required x) :
    m.Common (x.block, x.leftDp, x.rightDp) := by
  obtain ⟨a, b, hab, ha, hb, size1, size2, hs1, hs2, -, -⟩ := h
  exact ⟨mem_combinations2.mpr ⟨a, b, hab, ha, hb⟩, by simp [hs1], by simp [hs2]⟩

theorem tagged_packages (m : BlockMetadata) (so : SetOrder) (split : SplitToChunks)
    {chunkSizeAim : ℕ} (haim : 1 ≤ chunkSizeAim) :
    ∃ blocks packages, getCommonBlocks so m.sizes m.dpIds = some blocks ∧
      createWorkPackages split blocks m.sizes m.dpIds m.lookups chunkSizeAim = some packages ∧
      ∃ tagged : List (BlockName × ChunkPair), tagged.map Prod.snd = packages.flatten ∧
        (∀ c ∈ tagged, m.Carries c.1 c.2.1 ∧ m.Carries c.1 c.2.2) ∧
        (tagged.flatMap expand).Nodup ∧ ∀ x, x ∈ tagged.flatMap expand ↔ m.Required x := by

  obtain ⟨blocks, hblocks, hnodup, hmem⟩ := m.getCommonBlocks_eq so
  choose! f hf hcarries hfnodup hfmem using fun block (h : block ∈ blocks) =>
    blockChunks_eq split haim ((hmem block).mp h)
  have hflat := createWorkPackages_flatten split m.sizes m.dpIds m.lookups chunkSizeAim blocks
  rw [mapM_eq_pure_map hf] at hflat
  obtain ⟨packages, hp, hpf⟩ := Option.map_eq_some_iff.mp hflat
  have htag : (blocks.flatMap fun b => (f b).map fun c => (b.1, c)).flatMap expand =
      blocks.flatMap fun b => (f b).flatMap fun c => expand (b.1, c) := by
    simp [List.flatMap_assoc, List.flatMap_map]
  refine ⟨blocks, packages, hblocks, hp, blocks.flatMap fun b => (f b).map fun c => (b.1, c),
    ?_, ?_, ?_, ?_⟩
  · rw [hpf, ← List.flatMap_def, List.map_flatMap]
    simp [List.map_map, Function.comp_def]
  · intro c hc
    obtain ⟨b, hb, hc⟩ := List.mem_flatMap.mp hc
    obtain ⟨p, hp, rfl⟩ := List.mem_map.mp hc
    exact hcarries b hb p hp
  · rw [htag]
    refine List.nodup_flatMap.mpr ⟨hfnodup, hnodup.pairwise_of_forall_ne fun b hb b' hb' hne => ?_⟩
    intro x hx hx'
    exact hne (((hfmem b hb x).mp hx).2.symm.trans ((hfmem b' hb' x).mp hx').2)
  · intro x
    rw [htag, List.mem_flatMap]
    constructor
    · rintro ⟨b, hb, hx⟩
      exact ((hfmem b hb x).mp hx).1
    · intro hx
      have hb := (hmem _).mpr (common_of_required hx)
      exact ⟨_, hb, (hfmem _ hb x).mpr ⟨hx, rfl⟩⟩

end BlockMetadata

/-- Work packages cover every required comparison exactly once: the chunk pairs of all
packages, each tagged with the block it was made for, expand to every required comparison
once and to nothing else, and each chunk carries its own provider and block ids. -/
theorem createWorkPackages_covers (m : BlockMetadata) (so : SetOrder) (split : SplitToChunks)
    (chunkSizeAim : ℕ) (haim : 1 ≤ chunkSizeAim) :
    ∃ blocks packages, getCommonBlocks so m.sizes m.dpIds = some blocks ∧
      createWorkPackages split blocks m.sizes m.dpIds m.lookups chunkSizeAim = some packages ∧
      ∃ tagged : List (BlockName × ChunkPair), tagged.map Prod.snd = packages.flatten ∧
        (∀ c ∈ tagged, m.Carries c.1 c.2.1 ∧ m.Carries c.1 c.2.2) ∧
        (tagged.flatMap expand).Nodup ∧ ∀ x, x ∈ tagged.flatMap expand ↔ m.Required x :=
  m.tagged_packages so split haim

/-- Single comparisons, which is how an aim of one splits a block. -/
def unitSplit : SplitToChunks where
  run _ m n := (List.range m ×ˢ List.range n).map fun c => ((c.1, c.1 + 1), (c.2, c.2 + 1))
  tiles _ m n _ _ _ := by
    have hc : ((List.range m ×ˢ List.range n).map fun c => ((c.1, c.1 + 1), (c.2, c.2 + 1))).flatMap
        cells = List.range m ×ˢ List.range n := by
      simp [List.flatMap_map, cells, Range.positions, List.flatMap_singleton']
    refine ⟨?_, fun i j => ?_⟩ <;> rw [hc]
    · exact List.nodup_range.product List.nodup_range
    · simp [List.mem_product]

/-- Two providers that share one of their blocks. -/
def twoProviders : BlockMetadata where
  dpIds := [1, 2]
  distinct := by decide
  sizes := ⟨[(1, ⟨[(['a'], 2)], by decide⟩), (2, ⟨[(['a'], 3), (['b'], 1)], by decide⟩)], by decide⟩
  lookups := ⟨[(1, ⟨[(['a'], 7)], by decide⟩), (2, ⟨[(['a'], 8), (['b'], 9)], by decide⟩)],
    by decide⟩
  known := by decide
  sameKeys := by
    intro dp hdp name
    obtain rfl | rfl : dp = 1 ∨ dp = 2 := by simpa using hdp
    all_goals
      by_cases ha : ['a'] = name <;> by_cases hb : ['b'] = name <;>
        simp [lookup, Dict.get?, ha, hb]

/-- An iteration order that leaves the names as they are. -/
def SetOrder.same : SetOrder := ⟨fun _ _ l => l, fun _ _ l => List.Perm.refl l⟩

theorem createWorkPackages_covers_twoProviders :
    ∃ blocks packages,
      getCommonBlocks .same twoProviders.sizes twoProviders.dpIds = some blocks ∧
      createWorkPackages unitSplit blocks twoProviders.sizes twoProviders.dpIds
        twoProviders.lookups 1 = some packages ∧
      ∃ tagged : List (BlockName × ChunkPair), tagged.map Prod.snd = packages.flatten ∧
        (∀ c ∈ tagged, twoProviders.Carries c.1 c.2.1 ∧ twoProviders.Carries c.1 c.2.2) ∧
        (tagged.flatMap expand).Nodup ∧
        ∀ x, x ∈ tagged.flatMap expand ↔ twoProviders.Required x :=
  createWorkPackages_covers twoProviders .same unitSplit 1 (by decide)

example : (createWorkPackages unitSplit [(['a'], 1, 2)] twoProviders.sizes [1, 2]
    twoProviders.lookups 1).map List.length = some 6 := by decide

end EntityService.Tasks
