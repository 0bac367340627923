import EntityService.Tasks.Similarity
import EntityService.Views.Numbering

/-! What uploads have ingested is stored as the comparisons of a run need it. -/
namespace EntityService.Tasks.Similarity
open Lib Database

def recordsListing (names : ℕ → List BlockName) (n : ℕ) (name : BlockName) : List ℕ :=
  (List.range n).filter fun i => name ∈ names i

theorem mem_recordsListing {names : ℕ → List BlockName} {n i : ℕ} {name : BlockName} :
    i ∈ recordsListing names n name ↔ i < n ∧ name ∈ names i := by
  simp [recordsListing]

theorem pairwise_recordsListing (names : ℕ → List BlockName) (n : ℕ) (name : BlockName) :
    (recordsListing names n name).Pairwise (· ≤ ·) := by
  refine List.Pairwise.filter _ (List.pairwise_lt_range.imp ?_)
  exact fun h => Nat.le_of_lt h

/-- Records that list no block twice. -/
theorem flatMap_replicate_count {names : ℕ → List BlockName} {l : List ℕ}
    (hnodup : ∀ i ∈ l, (names i).Nodup) (name : BlockName) :
    l.flatMap (fun i => List.replicate ((names i).count name) i) =
      l.filter fun i => name ∈ names i := by
  induction l with
  | nil => rfl
  | cons i l ih =>
    obtain ⟨hi, hl⟩ := List.forall_mem_cons.mp hnodup
    rw [List.flatMap_cons, ih hl]
    by_cases hmem : name ∈ names i
    · rw [List.count_eq_one_of_mem hi hmem, List.filter_cons_of_pos (by simpa using hmem)]
      rfl
    · rw [List.count_eq_zero_of_not_mem hmem, List.filter_cons_of_neg (by simpa using hmem)]
      rfl

section Ingested
variable {db : Database} {dpId : DpId} {first : BlockId} {blocks : List (BlockName × ℤ)}
  {size : ℕ} {encodings : List Bytes} {names : ℕ → List BlockName}
  (h : db.Ingested dpId first blocks (packedItems size encodings names))
include h

theorem exists_mem_getBlockMetadata_iff {name : BlockName} {id : BlockId} :
    (∃ count, (name, id, count) ∈ db.getBlockMetadata dpId) ↔
      (db.blockLookup dpId).get? name = some id := by
  rw [h.getBlockMetadata, h.get?_blockLookup]
  constructor
  · rintro ⟨count, hmem⟩
    obtain ⟨⟨b, i⟩, hb, he⟩ := List.mem_map.mp hmem
    simp only [Prod.mk.injEq] at he
    obtain ⟨rfl, rfl, -⟩ := he
    have hget := List.mem_zipIdx_iff_getElem?.mp hb
    exact ⟨i, by simp [hget], rfl⟩
  · rintro ⟨i, hi, rfl⟩
    rw [List.getElem?_map, Option.map_eq_some_iff] at hi
    obtain ⟨b, hb, rfl⟩ := hi
    exact ⟨b.2, List.mem_map.mpr ⟨(b, i), List.mem_zipIdx_iff_getElem?.mpr hb, rfl⟩⟩

theorem blockEntityIds_of_ingested (hnodup : ∀ i < encodings.length, (names i).Nodup)
    {name : BlockName} {id : BlockId} (hid : (db.blockLookup dpId).get? name = some id) :
    blockEntityIds db dpId id = recordsListing names encodings.length name := by
  have hitems : (packedItems size encodings names).flatMap
      (fun t => List.replicate (t.2.2.count name) t.1) =
        (List.range encodings.length).flatMap
          fun i => List.replicate ((names i).count name) i := by
    rw [← map_fst_packedItems size encodings names, List.flatMap_map]
    apply List.flatMap_congr
    intro item hitem
    obtain ⟨e, -, heq⟩ := mem_packedItems.mp hitem
    rw [heq, packedItem_names, packedItem_fst]
  have hlisted := flatMap_replicate_count (l := List.range encodings.length)
    (fun i hi => hnodup i (List.mem_range.mp hi)) name
  unfold blockEntityIds
  rw [h.map_entityId hid, hitems, hlisted]
  exact (pairwise_recordsListing names encodings.length name).insertionSort_eq

theorem inBlock_iff_of_ingested {i : ℕ} {name : BlockName} :
    InBlock db dpId name i ↔ i < encodings.length ∧ name ∈ names i := by
  rw [← h.inBlock_iff]
  unfold InBlock Database.InBlock
  constructor
  · rintro ⟨id, count, hblock, hmem⟩
    have hid := (exists_mem_getBlockMetadata_iff h).mp ⟨count, hblock⟩
    unfold blockEntityIds at hmem
    rw [List.mem_insertionSort] at hmem
    obtain ⟨r, hr, rfl⟩ := List.mem_map.mp hmem
    obtain ⟨hrow, hsame⟩ := List.mem_filter.mp hr
    obtain ⟨hdp, rfl⟩ := of_decide_eq_true hsame
    exact ⟨r, hrow, hdp, rfl, hid⟩
  · rintro ⟨r, hrow, hdp, rfl, hid⟩
    obtain ⟨count, hblock⟩ := (exists_mem_getBlockMetadata_iff h).mpr hid
    refine ⟨r.blockId, count, hblock, ?_⟩
    unfold blockEntityIds
    rw [List.mem_insertionSort]
    exact List.mem_map_of_mem (List.mem_filter.mpr ⟨hrow, decide_eq_true ⟨hdp, rfl⟩⟩)

theorem nodup_names_of_ingested : ((db.getBlockMetadata dpId).map Prod.fst).Nodup := by
  have hnames : (db.getBlockMetadata dpId).map Prod.fst = blocks.map Prod.fst := by
    have hfst := congrArg (List.map Prod.fst) (List.zipIdx_map_fst 0 blocks)
    rw [h.getBlockMetadata, List.map_map]
    rw [List.map_map] at hfst
    exact hfst
  rw [hnames]
  exact h.names

/-- The declared blocks have records, each of them once, and are counted. -/
theorem blocks_of_ingested (hnodup : ∀ i < encodings.length, (names i).Nodup)
    (hcounted : blocks = counted ((List.range encodings.length).flatMap names)) :
    ∀ block ∈ db.getBlockMetadata dpId, blockEntityIds db dpId block.2.1 ≠ [] ∧
      (blockEntityIds db dpId block.2.1).Nodup ∧
        block.2.2 = (blockEntityIds db dpId block.2.1).length := by
  intro block hblock
  rw [h.getBlockMetadata] at hblock
  obtain ⟨⟨b, i⟩, hb, rfl⟩ := List.mem_map.mp hblock
  have hget := List.mem_zipIdx_iff_getElem?.mp hb
  have hid : (db.blockLookup dpId).get? b.1 = some (first + i) :=
    h.get?_blockLookup.mpr ⟨i, by simp [hget], rfl⟩
  have hmem : b ∈ counted ((List.range encodings.length).flatMap names) :=
    hcounted ▸ List.mem_of_getElem? hget
  obtain ⟨hlisted, hcount⟩ := mem_counted.mp hmem
  have hlength : (blockEntityIds db dpId (first + i)).length =
      ((List.range encodings.length).flatMap names).count b.1 := by
    unfold blockEntityIds
    rw [List.length_insertionSort, List.length_map, ← List.countP_eq_length_filter,
      h.countP_encodingblocks hid, flatMap_packedItems]
  refine ⟨?_, ?_, ?_⟩
  · intro hnil
    rw [hnil, List.length_nil] at hlength
    exact absurd hlength.symm (List.count_pos_iff.mpr hlisted).ne'
  · rw [blockEntityIds_of_ingested h hnodup hid]
    exact List.nodup_range.filter _
  · show b.2 = _
    rw [hcount, hlength]

end Ingested

/-- Datasets of numbered encodings of one size, ingested for different providers. -/
theorem storedDatasets_of_ingested {db : Database} {dpIds : List DpId} {size : ℕ}
    {encodings : DpId → List Bytes} {names : DpId → ℕ → List BlockName} (hdistinct : dpIds.Nodup)
    (hsize : ∀ dpId ∈ dpIds, ∀ e ∈ encodings dpId, e.length = size)
    (hkeys : (db.encodings.map EncodingRow.encodingId).Nodup)
    (hnodup : ∀ dpId ∈ dpIds, ∀ i < (encodings dpId).length, (names dpId i).Nodup)
    (hingested : ∀ dpId ∈ dpIds, (encodings dpId).length ≤ 2 ^ 32 ∧ ∃ first,
      db.Ingested dpId first
        (counted ((List.range (encodings dpId).length).flatMap (names dpId)))
        (packedItems size (encodings dpId) (names dpId))) :
    StoredDatasets db dpIds size encodings where
  distinct := hdistinct
  length := hsize
  rows := by
    intro dpId hdp
    obtain ⟨hlen, first, h⟩ := hingested dpId hdp
    exact storedRows_of_ingested h hlen hkeys
  names := by
    intro dpId hdp
    obtain ⟨-, first, h⟩ := hingested dpId hdp
    exact nodup_names_of_ingested h
  blocks := by
    intro dpId hdp
    obtain ⟨-, first, h⟩ := hingested dpId hdp
    exact blocks_of_ingested h (hnodup dpId hdp) rfl

end EntityService.Tasks.Similarity
