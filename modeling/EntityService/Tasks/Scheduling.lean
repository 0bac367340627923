import EntityService.Database.Ingested
import EntityService.Tasks.Coverage

/-! The comparisons that are scheduled for the blocks in the database. -/
namespace EntityService.Tasks
open Lib

/-- The sizes and the keys of the blocks of each data provider. A dataset that is not empty has
no negative count, so that the sizes are read as naturals. -/
def retrieveBlockedDatasetSizesAndLookup (db : Database) (dpIds : List DpId) :
    BlockSizes × BlockLookups :=
  (Dict.ofList (dpIds.map fun dpId =>
      (dpId, Dict.ofList ((db.getBlockMetadata dpId).map fun r => (r.1, r.2.2.toNat)))),
    Dict.ofList (dpIds.map fun dpId =>
      (dpId, Dict.ofList ((db.getBlockMetadata dpId).map fun r => (r.1, r.2.1)))))

abbrev Record := DpId × ℕ

def recordPairs (c : ChunkPair) : List (Record × Record) :=
  (cells (c.1.range, c.2.range)).map fun p =>
    ((c.1.dataproviderId, p.1), (c.2.dataproviderId, p.2))

/-- How often two records are compared, in whatever order the pair stands. -/
def timesCompared (packages : List Package) (a b : Record) : ℕ :=
  (packages.flatten.flatMap recordPairs).countP fun c => c = (a, b) ∨ c = (b, a)

theorem timesCompared_comm (packages : List Package) (a b : Record) :
    timesCompared packages a b = timesCompared packages b a := by
  unfold timesCompared
  exact List.countP_congr fun c _ => by simp only [decide_eq_true_eq, or_comm]

/-- What is scheduled for the data providers in some order of the set intersections, with some
way of splitting large blocks. -/
structure Scheduled (so : SetOrder) (split : SplitToChunks) (db : Database) (dpIds : List DpId)
    (chunkSizeAim : ℕ) (packages : List Package) : Prop where
  run : ∃ blocks,
    getCommonBlocks so (retrieveBlockedDatasetSizesAndLookup db dpIds).1 dpIds = some blocks ∧
    createWorkPackages split blocks (retrieveBlockedDatasetSizesAndLookup db dpIds).1 dpIds
      (retrieveBlockedDatasetSizesAndLookup db dpIds).2 chunkSizeAim = some packages

theorem Scheduled.unique {so : SetOrder} {split : SplitToChunks} {db : Database} {dpIds : List DpId}
    {chunkSizeAim : ℕ} {packages packages' : List Package}
    (h : Scheduled so split db dpIds chunkSizeAim packages)
    (h' : Scheduled so split db dpIds chunkSizeAim packages') : packages = packages' := by
  obtain ⟨blocks, hblocks, hpackages⟩ := h.run
  obtain ⟨blocks', hblocks', hpackages'⟩ := h'.run
  obtain rfl := Option.some.inj (hblocks.symm.trans hblocks')
  exact Option.some.inj (hpackages.symm.trans hpackages')

theorem get?_ofList_map {ν : Type} (f : DpId → ν) {dpIds : List DpId} {dpId : DpId}
    (h : dpId ∈ dpIds) : (Dict.ofList (dpIds.map fun d => (d, f d))).get? dpId = some (f dpId) := by
  have hmem : dpId ∈ (Dict.ofList (dpIds.map fun d => (d, f d))).keys := by
    rw [Dict.mem_keys_ofList, List.map_map]
    exact List.mem_map.mpr ⟨dpId, h, rfl⟩
  obtain ⟨v, hv⟩ := Dict.mem_keys_iff.mp hmem
  obtain ⟨d, -, he⟩ := List.mem_map.mp (Dict.mem_of_get?_ofList hv)
  obtain ⟨rfl, rfl⟩ := Prod.mk.inj he
  exact hv

def blockMetadata (db : Database) (dpIds : List DpId) (h : dpIds.Nodup) : BlockMetadata where
  dpIds := dpIds
  distinct := h
  sizes := (retrieveBlockedDatasetSizesAndLookup db dpIds).1
  lookups := (retrieveBlockedDatasetSizesAndLookup db dpIds).2
  known dpId hdp := Dict.mem_keys_iff.mpr ⟨_, get?_ofList_map _ hdp⟩
  sameKeys dpId hdp name := by
    have hnames : ∀ {ν : Type} (f : BlockName × BlockId × ℤ → ν),
        ((Dict.ofList ((db.getBlockMetadata dpId).map fun r => (r.1, f r))).get? name).isSome =
          decide (name ∈ (db.getBlockMetadata dpId).map Prod.fst) := by
      intro ν f
      rw [Bool.eq_iff_iff, Dict.get?_isSome, Dict.mem_keys_ofList, List.map_map, decide_eq_true_eq]
      rfl
    unfold lookup retrieveBlockedDatasetSizesAndLookup
    rw [get?_ofList_map _ hdp, get?_ofList_map _ hdp]
    exact (hnames _).trans (hnames _).symm

theorem recordPairs_eq (c : BlockName × ChunkPair) : recordPairs c.2 =
    (expand c).map fun x => ((x.leftDp, x.leftPos), (x.rightDp, x.rightPos)) := by
  unfold recordPairs expand
  rw [List.map_map]
  rfl

/-- The only block of a data provider, with its size. -/
def OnlyBlock (db : Database) (dpId : DpId) (name : BlockName) (size : ℕ) : Prop :=
  ∃ id, db.getBlockMetadata dpId = [(name, id, (size : ℤ))]

theorem OnlyBlock.lookup {db : Database} {dpId : DpId} {name : BlockName} {size : ℕ}
    (h : OnlyBlock db dpId name size) {dpIds : List DpId} (hdp : dpId ∈ dpIds) (n : BlockName) :
    Tasks.lookup (retrieveBlockedDatasetSizesAndLookup db dpIds).1 dpId n =
      if n = name then some size else none := by
  obtain ⟨id, hid⟩ := h
  unfold Tasks.lookup retrieveBlockedDatasetSizesAndLookup
  rw [get?_ofList_map _ hdp, hid]
  change (Dict.set Dict.empty name size).get? n = _
  rw [Dict.get?_set, Dict.get?_empty]

section OnlyBlocks
variable {db : Database} {dpIds : List DpId} {dp1 dp2 : DpId} {name1 name2 : BlockName}
  {size1 size2 : ℕ}

/-- Two records with one block each are compared once when their blocks have the same name. -/
theorem timesCompared_of_lt (hdistinct : dpIds.Nodup) (h1 : OnlyBlock db dp1 name1 size1)
    (h2 : OnlyBlock db dp2 name2 size2) {a b : ℕ} (hab : a < b) (ha : dpIds[a]? = some dp1)
    (hb : dpIds[b]? = some dp2) (so : SetOrder) (split : SplitToChunks) {chunkSizeAim : ℕ}
    (haim : 1 ≤ chunkSizeAim) :
    ∃ packages, Scheduled so split db dpIds chunkSizeAim packages ∧ ∀ i j,
      timesCompared packages (dp1, i) (dp2, j) =
        if name1 = name2 ∧ i < size1 ∧ j < size2 then 1 else 0 := by
  obtain ⟨blocks, packages, hblocks, hpackages, tagged, htagged, -, hnodup, hmem⟩ :=
    (blockMetadata db dpIds hdistinct).tagged_packages so split haim
  refine ⟨packages, ⟨⟨blocks, hblocks, hpackages⟩⟩, fun i j => ?_⟩
  have hd1 := h1.lookup (List.mem_of_getElem? ha)
  have hd2 := h2.lookup (List.mem_of_getElem? hb)
  have hindex : ∀ {c d : ℕ} {dp : DpId}, dpIds[c]? = some dp → dpIds[d]? = some dp → c = d := by
    intro c d dp hc hd
    obtain ⟨hlt, -⟩ := List.getElem?_eq_some_iff.mp hc
    exact (List.getElem?_inj hlt hdistinct).mp (hc.trans hd.symm)
  -- the pair is scheduled in the order of the providers only, and only in the block of both
  have hrequired : ∀ x ∈ tagged.flatMap expand,
      (((x.leftDp, x.leftPos), (x.rightDp, x.rightPos)) = ((dp1, i), (dp2, j)) ∨
        ((x.leftDp, x.leftPos), (x.rightDp, x.rightPos)) = ((dp2, j), (dp1, i))) ↔
          x = ⟨dp1, i, dp2, j, name1⟩ := by
    rintro ⟨left, leftPos, right, rightPos, name⟩ hx
    obtain ⟨c, d, hcd, hc, hd, s1, s2, hs1, -⟩ := (hmem _).mp hx
    constructor
    · rintro (heq | heq)
      · simp only [Prod.mk.injEq] at heq
        obtain ⟨⟨rfl, rfl⟩, rfl, rfl⟩ := heq
        have hname := (hd1 name).symm.trans hs1
        split_ifs at hname with hn
        rw [hn]
      · simp only [Prod.mk.injEq] at heq
        obtain ⟨⟨rfl, rfl⟩, rfl, rfl⟩ := heq
        obtain rfl := hindex hc hb
        obtain rfl := hindex hd ha
        exact absurd hcd hab.not_gt
    · rintro heq
      cases heq
      exact Or.inl rfl
  have hcount : timesCompared packages (dp1, i) (dp2, j) =
      (tagged.flatMap expand).count ⟨dp1, i, dp2, j, name1⟩ := by
    have hpairs : packages.flatten.flatMap recordPairs = (tagged.flatMap expand).map
        fun x => ((x.leftDp, x.leftPos), (x.rightDp, x.rightPos)) := by
      rw [← htagged, List.flatMap_map, List.map_flatMap]
      simp only [recordPairs_eq]
    unfold timesCompared List.count
    rw [hpairs, List.countP_map]
    refine List.countP_congr fun x hx => ?_
    simpa using hrequired x hx
  have hin : (⟨dp1, i, dp2, j, name1⟩ : Comparison) ∈ tagged.flatMap expand ↔
      name1 = name2 ∧ i < size1 ∧ j < size2 := by
    rw [hmem]
    constructor
    · rintro ⟨-, -, -, -, -, s1, s2, hs1, hs2, hi, hj⟩
      have hsize1 := (hd1 name1).symm.trans hs1
      have hsize2 := (hd2 name1).symm.trans hs2
      rw [if_pos rfl] at hsize1
      split_ifs at hsize2 with hn
      obtain rfl := Option.some.inj hsize1
      obtain rfl := Option.some.inj hsize2
      exact ⟨hn, hi, hj⟩
    · rintro ⟨hn, hi, hj⟩
      refine ⟨a, b, hab, ha, hb, size1, size2, ?_, ?_, hi, hj⟩
      · exact (hd1 name1).trans (if_pos rfl)
      · exact (hd2 name1).trans (if_pos hn)
  rw [hcount, hnodup.count]
  simp only [hin]

/-- The order in which two data providers are listed does not matter. -/
theorem timesCompared_eq (hdistinct : dpIds.Nodup) (hmem1 : dp1 ∈ dpIds) (hmem2 : dp2 ∈ dpIds)
    (hne : dp1 ≠ dp2) (h1 : OnlyBlock db dp1 name1 size1) (h2 : OnlyBlock db dp2 name2 size2)
    (so : SetOrder) (split : SplitToChunks) {chunkSizeAim : ℕ} (haim : 1 ≤ chunkSizeAim) :
    ∃ packages, Scheduled so split db dpIds chunkSizeAim packages ∧ ∀ i j,
      timesCompared packages (dp1, i) (dp2, j) =
        if name1 = name2 ∧ i < size1 ∧ j < size2 then 1 else 0 := by
  obtain ⟨a, ha⟩ := List.mem_iff_getElem?.mp hmem1
  obtain ⟨b, hb⟩ := List.mem_iff_getElem?.mp hmem2
  rcases lt_trichotomy a b with hab | rfl | hba
  · exact timesCompared_of_lt hdistinct h1 h2 hab ha hb so split haim
  · exact absurd (Option.some.inj (ha.symm.trans hb)) hne
  · obtain ⟨packages, hscheduled, htimes⟩ :=
      timesCompared_of_lt hdistinct h2 h1 hba hb ha so split haim
    refine ⟨packages, hscheduled, fun i j => ?_⟩
    rw [timesCompared_comm, htimes]
    refine if_congr ?_ rfl rfl
    rw [eq_comm, and_comm (a := j < size2)]

end OnlyBlocks
end EntityService.Tasks
