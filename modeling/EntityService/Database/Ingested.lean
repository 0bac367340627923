import EntityService.EncodingStorage.Storing

/-! The rows of one data provider: what a provider without data has, what an ingestion
leaves, and the updates that do not touch it. -/
namespace EntityService.Database
open Lib

/-- No data of the provider is stored. -/
structure Vacant (db : Database) (dpId : DpId) : Prop where
  blocks : ∀ r ∈ db.blocks, r.dp ≠ dpId
  encodings : ∀ r ∈ db.encodings, r.dp ≠ dpId
  encodingblocks : ∀ r ∈ db.encodingblocks, r.dp ≠ dpId

/-- Two databases with the same data, whatever the state of the uploads. -/
structure SameData (db db' : Database) : Prop where
  blocks : db'.blocks.map (fun r => (r.dp, r.blockName, r.blockId, r.count)) =
    db.blocks.map fun r => (r.dp, r.blockName, r.blockId, r.count)
  encodings : db'.encodings = db.encodings
  encodingblocks : db'.encodingblocks = db.encodingblocks
  nextBlockId : db'.nextBlockId = db.nextBlockId

namespace SameData

theorem refl (db : Database) : SameData db db := ⟨rfl, rfl, rfl, rfl⟩

theorem symm {db db' : Database} (h : SameData db db') : SameData db' db :=
  ⟨h.blocks.symm, h.encodings.symm, h.encodingblocks.symm, h.nextBlockId.symm⟩

theorem trans {db db' db'' : Database} (h : SameData db db') (h' : SameData db' db'') :
    SameData db db'' :=
  ⟨h'.blocks.trans h.blocks, h'.encodings.trans h.encodings,
    h'.encodingblocks.trans h.encodingblocks, h'.nextBlockId.trans h.nextBlockId⟩

theorem filter_blocks {db db' : Database} (h : SameData db db') (dpId : DpId) :
    (db'.blocks.filter (fun r => r.dp = dpId)).map (fun r => (r.blockName, r.blockId, r.count)) =
      (db.blocks.filter (fun r => r.dp = dpId)).map fun r => (r.blockName, r.blockId, r.count) := by
  have hproj : ∀ rows : List BlockRow,
      (rows.filter (fun r => r.dp = dpId)).map (fun r => (r.blockName, r.blockId, r.count)) =
        ((rows.map fun r => (r.dp, r.blockName, r.blockId, r.count)).filter
          (fun r => r.1 = dpId)).map Prod.snd := by
    intro rows
    rw [List.filter_map, List.map_map]
    rfl
  rw [hproj, hproj, h.blocks]

theorem getBlockMetadata {db db' : Database} (h : SameData db db') (dpId : DpId) :
    db'.getBlockMetadata dpId = db.getBlockMetadata dpId := by
  have hproj : ∀ rows : List BlockRow,
      rows.map (fun r => (strip (charPad 64 r.blockName), r.blockId, r.count)) =
        (rows.map fun r => (r.blockName, r.blockId, r.count)).map
          fun r => (strip (charPad 64 r.1), r.2) := by
    intro rows
    rw [List.map_map]
    rfl
  unfold Database.getBlockMetadata
  rw [hproj, hproj, h.filter_blocks]

theorem blockLookup {db db' : Database} (h : SameData db db') (dpId : DpId) :
    db'.blockLookup dpId = db.blockLookup dpId := by
  unfold Database.blockLookup
  rw [h.getBlockMetadata]

theorem admits {db db' : Database} (h : SameData db db') {dpId : DpId} {items : List Item}
    (ha : db'.Admits dpId items) : db.Admits dpId items where
  nodup := ha.nodup
  fresh := h.encodings ▸ ha.fresh
  small := ha.small
  known := h.blockLookup dpId ▸ ha.known
  int4 := ha.int4

theorem vacant {db db' : Database} (h : SameData db db') {dpId : DpId} (hv : db.Vacant dpId) :
    db'.Vacant dpId where
  blocks := by
    intro r hr
    have hm := List.mem_map_of_mem
      (f := fun r : BlockRow => (r.dp, r.blockName, r.blockId, r.count)) hr
    rw [h.blocks, List.mem_map] at hm
    obtain ⟨r', hr', he⟩ := hm
    have hdp : r'.dp = r.dp := congrArg Prod.fst he
    exact hdp ▸ hv.blocks r' hr'
  encodings := h.encodings ▸ hv.encodings
  encodingblocks := h.encodingblocks ▸ hv.encodingblocks

end SameData

/-- A block name that survives the padding of its column. -/
def Clean (name : BlockName) : Prop := ∀ c ∈ name, c.isWhitespace = false

/-- The rows of the provider are those of an ingestion: its blocks with their declared counts,
numbered from the first one on, and the rows of its items. -/
structure Ingested (db : Database) (dpId : DpId) (first : BlockId)
    (blocks : List (BlockName × ℤ)) (items : List Item) : Prop where
  clean : ∀ b ∈ blocks, Clean b.1
  names : (blocks.map Prod.fst).Nodup
  declared : (db.blocks.filter (fun r => r.dp = dpId)).map
    (fun r => (r.blockName, r.blockId, r.count)) =
      blocks.zipIdx.map fun b => (b.1.1, first + b.2, b.1.2)
  encodings : db.encodings.filter (fun r => r.dp = dpId) = items.map (encodingRow dpId)
  encodingblocks : db.encodingblocks.filter (fun r => r.dp = dpId) =
    items.flatMap (blockRows (db.blockLookup dpId) dpId)
  known : ∀ item ∈ items, ∀ name ∈ item.2.2, name ∈ (db.blockLookup dpId).keys
  nodup : (items.map Prod.fst).Nodup
  small : ∀ item ∈ items, (dpId <<< 32) + item.1 < 2 ^ 63

theorem SameData.ingested {db db' : Database} (h : SameData db db') {dpId : DpId} {first : BlockId}
    {blocks : List (BlockName × ℤ)} {items : List Item}
    (hi : db.Ingested dpId first blocks items) : db'.Ingested dpId first blocks items where
  clean := hi.clean
  names := hi.names
  declared := (h.filter_blocks dpId).trans hi.declared
  encodings := h.encodings ▸ hi.encodings
  encodingblocks := by
    rw [h.encodingblocks, h.blockLookup]
    exact hi.encodingblocks
  known := by
    rw [h.blockLookup]
    exact hi.known
  nodup := hi.nodup
  small := hi.small

/-- The database with a pending row for each block. -/
def addBlocks (db : Database) (dpId : DpId) (blocks : List (BlockName × ℤ)) : Database :=
  { db with
    blocks := db.blocks ++ blocks.zipIdx.map fun b =>
      ⟨dpId, b.1.1, db.nextBlockId + b.2, b.1.2, .pending⟩
    nextBlockId := db.nextBlockId + blocks.length }

theorem insertBlockingMetadata_eq_ok {db db' : Database} {dpId : DpId}
    {blocks : List (BlockName × ℤ)} :
    db.insertBlockingMetadata dpId blocks = .ok db' ↔
      (∀ b ∈ blocks, b.1.length ≤ 64 ∧ Int4 b.2) ∧ db' = db.addBlocks dpId blocks := by
  unfold insertBlockingMetadata addBlocks
  simp only [bind_eq_ok, ensure_eq_ok, pure_eq_ok, Except.ok.injEq, exists_const]
  exact and_congr_right fun _ => eq_comm

/-- Declaring the blocks of a provider without data. -/
theorem Vacant.addBlocks {db : Database} {dpId : DpId} (h : db.Vacant dpId)
    {blocks : List (BlockName × ℤ)} (hclean : ∀ b ∈ blocks, Clean b.1)
    (hnames : (blocks.map Prod.fst).Nodup) :
    (db.addBlocks dpId blocks).Ingested dpId db.nextBlockId blocks [] where
  clean := hclean
  names := hnames
  declared := by
    have hold : db.blocks.filter (fun r => r.dp = dpId) = [] :=
      List.filter_eq_nil_iff.mpr fun r hr => by simpa using h.blocks r hr
    simp [Database.addBlocks, List.filter_append, hold, List.filter_map, Function.comp_def]
  encodings := List.filter_eq_nil_iff.mpr fun r hr => by simpa using h.encodings r hr
  encodingblocks := List.filter_eq_nil_iff.mpr fun r hr => by simpa using h.encodingblocks r hr
  known := by simp
  nodup := List.nodup_nil
  small := by simp

theorem Ingested.addItems {db : Database} {dpId : DpId} {first : BlockId}
    {blocks : List (BlockName × ℤ)} (h : db.Ingested dpId first blocks []) {items : List Item}
    (ha : db.Admits dpId items) : (db.addItems dpId items).Ingested dpId first blocks items where
  clean := h.clean
  names := h.names
  declared := h.declared
  encodings := by
    have hnew : (items.map (encodingRow dpId)).filter (fun r => r.dp = dpId) =
        items.map (encodingRow dpId) :=
      List.filter_eq_self.mpr fun r hr => by
        obtain ⟨item, -, rfl⟩ := List.mem_map.mp hr
        simp [encodingRow]
    rw [Database.addItems, List.filter_append, h.encodings, hnew]
    rfl
  encodingblocks := by
    have hnew : (items.flatMap (blockRows (db.blockLookup dpId) dpId)).filter
        (fun r => r.dp = dpId) = items.flatMap (blockRows (db.blockLookup dpId) dpId) :=
      List.filter_eq_self.mpr fun r hr => by
        obtain ⟨item, -, hr⟩ := List.mem_flatMap.mp hr
        obtain ⟨name, -, rfl⟩ := List.mem_map.mp hr
        simp
    rw [blockLookup_addItems, Database.addItems, List.filter_append, h.encodingblocks, hnew]
    rfl
  known := ha.known
  nodup := by
    have hcomp : items.map (fun item => (dpId <<< 32) + item.1) =
        (items.map Prod.fst).map fun i => (dpId <<< 32) + i := by
      rw [List.map_map]
      rfl
    exact (hcomp ▸ ha.nodup).of_map _
  small := ha.small

/-- An ingestion declares the blocks of a provider without data and adds the items to them. -/
theorem Vacant.ingested {db db₁ db' : Database} {dpId : DpId} (hv : db.Vacant dpId)
    {blocks : List (BlockName × ℤ)} {items : List Item} (hclean : ∀ b ∈ blocks, Clean b.1)
    (hnames : (blocks.map Prod.fst).Nodup) (hsame : SameData db db₁)
    (ha : (db₁.addBlocks dpId blocks).Admits dpId items)
    (hsame' : SameData ((db₁.addBlocks dpId blocks).addItems dpId items) db') :
    db'.Ingested dpId db.nextBlockId blocks items := by
  have hdecl := (hsame.vacant hv).addBlocks hclean hnames
  rw [hsame.nextBlockId] at hdecl
  exact hsame'.ingested (hdecl.addItems ha)

namespace Ingested
variable {db : Database} {dpId : DpId} {first : BlockId} {blocks : List (BlockName × ℤ)}
  {items : List Item} (h : db.Ingested dpId first blocks items)
include h

theorem getBlockMetadata :
    db.getBlockMetadata dpId = blocks.zipIdx.map fun b => (b.1.1, first + b.2, b.1.2) := by
  have hproj : (db.blocks.filter (fun r => r.dp = dpId)).map
      (fun r => (strip (charPad 64 r.blockName), r.blockId, r.count)) =
      ((db.blocks.filter (fun r => r.dp = dpId)).map
        fun r => (r.blockName, r.blockId, r.count)).map fun r => (strip (charPad 64 r.1), r.2) := by
    rw [List.map_map]
    rfl
  unfold Database.getBlockMetadata
  rw [hproj, h.declared, List.map_map]
  refine List.map_congr_left fun b hb => ?_
  have hclean := h.clean b.1 (List.fst_mem_of_mem_zipIdx hb)
  simp only [Function.comp_apply, strip_charPad hclean]

/-- The number of a block is its position among the declared ones. -/
theorem get?_blockLookup {name : BlockName} {id : BlockId} :
    (db.blockLookup dpId).get? name = some id ↔
      ∃ i, (blocks.map Prod.fst)[i]? = some name ∧ id = first + i := by
  have hkeys : ((blocks.zipIdx.map fun b => (b.1.1, first + b.2, b.1.2)).map
      fun r => (r.1, r.2.1)) = blocks.zipIdx.map fun b => (b.1.1, first + b.2) := by
    rw [List.map_map]
    rfl
  have hfst : (blocks.zipIdx.map fun b => (b.1.1, first + b.2)).map Prod.fst =
      blocks.map Prod.fst := by
    have hz := congrArg (List.map Prod.fst) (List.zipIdx_map_fst 0 blocks)
    rw [List.map_map] at hz ⊢
    exact hz
  unfold blockLookup
  rw [h.getBlockMetadata, hkeys, Dict.get?_ofList (by rw [hfst]; exact h.names), List.mem_map]
  constructor
  · rintro ⟨⟨b, i⟩, hb, he⟩
    obtain ⟨rfl, rfl⟩ := Prod.mk.inj he
    have hget := List.mem_zipIdx_iff_getElem?.mp hb
    exact ⟨i, by simp [hget], rfl⟩
  · rintro ⟨i, hi, rfl⟩
    rw [List.getElem?_map, Option.map_eq_some_iff] at hi
    obtain ⟨b, hb, rfl⟩ := hi
    exact ⟨(b, i), List.mem_zipIdx_iff_getElem?.mpr hb, rfl⟩

theorem mem_keys_blockLookup {name : BlockName} :
    name ∈ (db.blockLookup dpId).keys ↔ name ∈ blocks.map Prod.fst := by
  rw [Dict.mem_keys_iff, List.mem_iff_getElem?]
  simp only [h.get?_blockLookup]
  constructor
  · rintro ⟨_, i, hi, rfl⟩
    exact ⟨i, hi⟩
  · rintro ⟨i, hi⟩
    exact ⟨_, i, hi, rfl⟩

/-- Two names do not share a number. -/
theorem blockLookup_inj {name name' : BlockName} {id : BlockId}
    (hn : (db.blockLookup dpId).get? name = some id)
    (hn' : (db.blockLookup dpId).get? name' = some id) : name = name' := by
  obtain ⟨i, hi, rfl⟩ := h.get?_blockLookup.mp hn
  obtain ⟨j, hj, he⟩ := h.get?_blockLookup.mp hn'
  obtain rfl : i = j := Nat.add_left_cancel he
  exact Option.some.inj (hi.symm.trans hj)

/-- A block has as many rows as its name has occurrences in the lists of the items. -/
theorem countP_encodingblocks {name : BlockName} {id : BlockId}
    (hn : (db.blockLookup dpId).get? name = some id) :
    db.encodingblocks.countP (fun r => r.dp = dpId ∧ r.blockId = id) =
      (items.flatMap fun t => t.2.2).count name := by
  have hfilter : db.encodingblocks.countP (fun r => r.dp = dpId ∧ r.blockId = id) =
      (db.encodingblocks.filter (fun r => r.dp = dpId)).countP (fun r => r.blockId = id) := by
    rw [List.countP_filter]
    simp only [Bool.decide_and, Bool.and_comm]
  have hids : (items.flatMap (blockRows (db.blockLookup dpId) dpId)).countP
      (fun r => r.blockId = id) =
      (items.flatMap fun t => t.2.2).countP
        (fun n => ((db.blockLookup dpId).get? n).getD 0 = id) := by
    rw [List.countP_flatMap, List.countP_flatMap]
    simp only [blockRows, List.countP_map, Function.comp_def]
  rw [hfilter, h.encodingblocks, hids, List.count]
  refine List.countP_congr fun n hmem => ?_
  obtain ⟨item, hitem, hname⟩ := List.mem_flatMap.mp hmem
  obtain ⟨id', hid'⟩ := Dict.mem_keys_iff.mp (h.known item hitem n hname)
  simp only [hid', Option.getD_some, decide_eq_true_eq, beq_iff_eq]
  constructor
  · rintro rfl
    exact h.blockLookup_inj hid' hn
  · rintro rfl
    exact Option.some.inj (hid'.symm.trans hn)

/-- A declared block has a row, whose number its name is looked up by. -/
theorem exists_block {b : BlockName × ℤ} (hb : b ∈ blocks) :
    ∃ r ∈ db.blocks, r.dp = dpId ∧ r.blockName = b.1 ∧ r.count = b.2 ∧
      (db.blockLookup dpId).get? b.1 = some r.blockId := by
  obtain ⟨i, hi⟩ := List.mem_iff_getElem?.mp hb
  have hz : (b, i) ∈ blocks.zipIdx := List.mem_zipIdx_iff_getElem?.mpr hi
  have hmem : (b.1, first + i, b.2) ∈ (db.blocks.filter (fun r => r.dp = dpId)).map
      (fun r => (r.blockName, r.blockId, r.count)) := by
    rw [h.declared]
    exact List.mem_map.mpr ⟨(b, i), hz, rfl⟩
  obtain ⟨r, hr, he⟩ := List.mem_map.mp hmem
  obtain ⟨hrow, hdp⟩ := List.mem_filter.mp hr
  simp only [Prod.mk.injEq] at he
  refine ⟨r, hrow, of_decide_eq_true hdp, he.1, he.2.2, ?_⟩
  exact h.get?_blockLookup.mpr ⟨i, by simp [hi], he.2.1⟩

/-- A block lists each item as often as the item lists its name. -/
theorem map_entityId {name : BlockName} {id : BlockId}
    (hn : (db.blockLookup dpId).get? name = some id) :
    (db.encodingblocks.filter (fun r => r.dp = dpId ∧ r.blockId = id)).map
        EncodingBlockRow.entityId =
      items.flatMap fun t => List.replicate (t.2.2.count name) t.1 := by
  have hfilter : db.encodingblocks.filter (fun r => r.dp = dpId ∧ r.blockId = id) =
      (db.encodingblocks.filter (fun r => r.dp = dpId)).filter (fun r => r.blockId = id) := by
    rw [List.filter_filter]
    simp only [Bool.decide_and, Bool.and_comm]
  rw [hfilter, h.encodingblocks, List.filter_flatMap, List.map_flatMap, List.flatMap_def,
    List.flatMap_def]
  refine congrArg List.flatten (List.map_congr_left fun item hitem => ?_)
  have hname : ∀ n ∈ item.2.2,
      decide (((db.blockLookup dpId).get? n).getD 0 = id) = decide (n = name) := by
    intro n hmem
    obtain ⟨id', hid'⟩ := Dict.mem_keys_iff.mp (h.known item hitem n hmem)
    rw [hid', Option.getD_some, decide_eq_decide]
    constructor
    · rintro rfl
      exact h.blockLookup_inj hid' hn
    · rintro rfl
      exact Option.some.inj (hid'.symm.trans hn)
  rw [blockRows, List.filter_map, List.map_map]
  simp only [Function.comp_def]
  rw [List.filter_congr hname, List.filter_eq, List.map_replicate]

theorem map_encodingId : (db.encodings.filter (fun r => r.dp = dpId)).map EncodingRow.encodingId =
    computeEncodingIds (items.map Prod.fst) dpId := by
  rw [h.encodings, computeEncodingIds, List.map_map, List.map_map]
  rfl

/-- The blocks of the provider, in terms of those that were declared. -/
theorem forall_blocks_iff {c : BlockName → BlockId → ℤ → Prop} :
    (∀ r ∈ db.blocks, r.dp = dpId → c r.blockName r.blockId r.count) ↔
      ∀ b ∈ blocks.zipIdx, c b.1.1 (first + b.2) b.1.2 := by
  have hrows : (∀ r ∈ db.blocks, r.dp = dpId → c r.blockName r.blockId r.count) ↔
      ∀ p ∈ (db.blocks.filter (fun r => r.dp = dpId)).map
        (fun r => (r.blockName, r.blockId, r.count)), c p.1 p.2.1 p.2.2 := by
    rw [List.forall_mem_map]
    simp only [List.mem_filter, decide_eq_true_eq, and_imp]
  rw [hrows, h.declared, List.forall_mem_map]

/-- The declared counts are right when the lists of the items have as many occurrences. -/
theorem counts_iff :
    (∀ r ∈ db.blocks, r.dp = dpId → r.count =
      (db.encodingblocks.countP (fun e => e.dp = dpId ∧ e.blockId = r.blockId) : ℤ)) ↔
      ∀ b ∈ blocks, b.2 = ((items.flatMap fun t => t.2.2).count b.1 : ℤ) := by
  have hcount : ∀ b ∈ blocks.zipIdx,
      db.encodingblocks.countP (fun e => e.dp = dpId ∧ e.blockId = first + b.2) =
        (items.flatMap fun t => t.2.2).count b.1.1 := by
    intro b hb
    have hget := List.mem_zipIdx_iff_getElem?.mp hb
    exact h.countP_encodingblocks (h.get?_blockLookup.mpr ⟨b.2, by simp [hget], rfl⟩)
  rw [h.forall_blocks_iff (c := fun _ id count => count =
    (db.encodingblocks.countP (fun e => e.dp = dpId ∧ e.blockId = id) : ℤ))]
  constructor
  · intro hall b hb
    obtain ⟨i, hi⟩ := List.mem_iff_getElem?.mp hb
    have hz : (b, i) ∈ blocks.zipIdx := List.mem_zipIdx_iff_getElem?.mpr hi
    rw [← hcount (b, i) hz]
    exact hall (b, i) hz
  · intro hall b hb
    rw [hcount b hb]
    exact hall b.1 (List.fst_mem_of_mem_zipIdx hb)

end Ingested
end EntityService.Database
