import EntityService.Database.Ingested
import EntityService.EncodingStorage.BlockRows
import EntityService.EncodingStorage.Packing

/-! What fetching a stored block gives: a chunk has each of its records once, a package has one
for each row of the block. -/
namespace EntityService
open Lib Database

def storedForm (size : ℕ) (encodings : List Bytes) (i : ℕ) : Bytes :=
  packUInt32 i ++ fit size ((encodings[i]?).getD [])

/-- What the stored form of an encoding unpacks to. -/
def record (size : ℕ) (encodings : List Bytes) (i : ℕ) : ℕ × Bytes :=
  (i, fit size ((encodings[i]?).getD []))

theorem unpack_storedForm {size : ℕ} {encodings : List Bytes} (hlen : encodings.length ≤ 2 ^ 32)
    {i : ℕ} (hi : i < encodings.length) :
    (⟨size⟩ : BitPacking).unpack (storedForm size encodings i) =
      .ok (record size encodings i) := by
  have hpack : (⟨size⟩ : BitPacking).pack i ((encodings[i]?).getD []) =
      .ok (storedForm size encodings i) := (BitPacking.pack_eq_ok ⟨size⟩).mpr ⟨by omega, rfl⟩
  exact BitPacking.unpack_pack ⟨size⟩ hpack

/-- The entity ids in a block, in ascending order. -/
def blockEntityIds (db : Database) (dpId : DpId) (blockId : BlockId) : List ℕ :=
  ((db.encodingblocks.filter (fun r => r.dp = dpId ∧ r.blockId = blockId)).map
    EncodingBlockRow.entityId).insertionSort (· ≤ ·)

theorem pairwise_blockEntityIds (db : Database) (dpId : DpId) (blockId : BlockId) :
    (blockEntityIds db dpId blockId).Pairwise (· ≤ ·) := List.pairwise_insertionSort _ _

/-- The rows of a provider after an ingestion of numbered encodings. -/
structure StoredRows (db : Database) (dpId : DpId) (size : ℕ) (encodings : List Bytes) : Prop where
  length_le : encodings.length ≤ 2 ^ 32
  keys : (db.encodings.map EncodingRow.encodingId).Nodup
  encoding : ∀ i < encodings.length,
    ⟨(dpId <<< 32) + i, storedForm size encodings i, dpId⟩ ∈ db.encodings
  block : ∀ r ∈ db.encodingblocks, r.dp = dpId →
    r.entityId < encodings.length ∧ r.encodingId = (dpId <<< 32) + r.entityId

theorem storedRows_of_ingested {db : Database} {dpId : DpId} {first : BlockId}
    {blocks : List (BlockName × ℤ)} {size : ℕ} {encodings : List Bytes}
    {names : ℕ → List BlockName}
    (h : db.Ingested dpId first blocks (packedItems size encodings names))
    (hlen : encodings.length ≤ 2 ^ 32) (hkeys : (db.encodings.map EncodingRow.encodingId).Nodup) :
    StoredRows db dpId size encodings where
  length_le := hlen
  keys := hkeys
  encoding i hi := by
    have hget : encodings[i]? = some encodings[i] := List.getElem?_eq_getElem hi
    have hitem : packedItem size (i, encodings[i], names i) ∈ packedItems size encodings names :=
      mem_packedItems.mpr ⟨encodings[i], hget, rfl⟩
    have hrow : encodingRow dpId (packedItem size (i, encodings[i], names i)) ∈
        db.encodings.filter (fun r => r.dp = dpId) := by
      rw [h.encodings]
      exact List.mem_map_of_mem hitem
    have hstored : storedForm size encodings i = packUInt32 i ++ fit size encodings[i] := by
      rw [storedForm, hget, Option.getD_some]
    rw [hstored]
    exact List.mem_of_mem_filter hrow
  block r hr hdp := by
    have hmem : r ∈ db.encodingblocks.filter (fun r => r.dp = dpId) :=
      List.mem_filter.mpr ⟨hr, decide_eq_true hdp⟩
    rw [h.encodingblocks] at hmem
    obtain ⟨item, hitem, hrow⟩ := List.mem_flatMap.mp hmem
    obtain ⟨name, -, rfl⟩ := List.mem_map.mp hrow
    exact ⟨lt_of_mem_packedItems hitem, rfl⟩

namespace StoredRows
variable {db : Database} {dpId : DpId} {size : ℕ} {encodings : List Bytes}
  (h : StoredRows db dpId size encodings)
include h

theorem lt_of_mem_blockEntityIds {blockId : BlockId} {i : ℕ}
    (hi : i ∈ blockEntityIds db dpId blockId) : i < encodings.length := by
  rw [blockEntityIds, List.mem_insertionSort] at hi
  obtain ⟨r, hr, rfl⟩ := List.mem_map.mp hi
  obtain ⟨hmem, hc⟩ := List.mem_filter.mp hr
  exact (h.block r hmem (of_decide_eq_true hc).1).1

theorem filter_encodings {i : ℕ} (hi : i < encodings.length) :
    db.encodings.filter (fun e => e.encodingId = (dpId <<< 32) + i) =
      [⟨(dpId <<< 32) + i, storedForm size encodings i, dpId⟩] :=
  filter_eq_singleton h.keys (h.encoding i hi)

/-- The encodings of a list of ids in ascending order come once each. -/
theorem getChunkOfEncodings_eq_ok {ids : List ℕ} (hne : ids ≠ []) (hsorted : ids.Pairwise (· ≤ ·))
    (hlt : ∀ i ∈ ids, i < encodings.length) :
    db.getChunkOfEncodings dpId ids = .ok (ids.dedup.map (storedForm size encodings)) := by
  let row := fun i : ℕ => (⟨(dpId <<< 32) + i, storedForm size encodings i, dpId⟩ : EncodingRow)
  have hpairwise : (ids.dedup.map row).Pairwise fun r s => r.encodingId < s.encodingId := by
    rw [List.pairwise_map]
    exact (pairwise_lt_dedup hsorted).imp fun hab => Nat.add_lt_add_left hab _
  have hnodup : (db.encodings.filter
      (fun r => r.encodingId ∈ computeEncodingIds ids dpId)).Nodup :=
    (h.keys.of_map _).filter _
  have hperm : (ids.dedup.map row).Perm (db.encodings.filter
      (fun r => r.encodingId ∈ computeEncodingIds ids dpId)) := by
    refine (List.perm_ext_iff_of_nodup (hpairwise.imp ?_) hnodup).mpr fun r => ?_
    · rintro r s hrs rfl
      exact lt_irrefl _ hrs
    · simp only [List.mem_map, List.mem_dedup, List.mem_filter, computeEncodingIds,
        decide_eq_true_eq]
      constructor
      · rintro ⟨i, hi, rfl⟩
        exact ⟨h.encoding i (hlt i hi), i, hi, rfl⟩
      · rintro ⟨hr, i, hi, he⟩
        have hmem : r ∈ db.encodings.filter (fun e => e.encodingId = (dpId <<< 32) + i) :=
          List.mem_filter.mpr ⟨hr, decide_eq_true he.symm⟩
        rw [h.filter_encodings (hlt i hi), List.mem_singleton] at hmem
        exact ⟨i, hi, hmem.symm⟩
  have hids : computeEncodingIds ids dpId ≠ [] := by
    unfold computeEncodingIds
    exact fun hnil => hne (List.map_eq_nil_iff.mp hnil)
  unfold getChunkOfEncodings
  simp only [bind_eq_ok, ensure_eq_ok, pure_eq_ok, exists_const]
  refine ⟨hids, ?_⟩
  rw [insertionSort_eq_of_perm hperm hpairwise, List.map_map]
  rfl

/-- A range of a block gives its records without repetitions, and an empty one raises. -/
theorem getEncodingChunk_eq (blockId : BlockId) (datasetIndex : ℕ) (range : Range) :
    let ids := ((blockEntityIds db dpId blockId).drop range.1).take (range.2 - range.1)
    getEncodingChunk db ⟨dpId, datasetIndex, range, blockId⟩ size =
      if ids = [] then .error .databaseError
      else .ok (ids.dedup.map (record size encodings), ids.dedup.length) := by
  intro ids
  have hlt : ∀ i ∈ ids, i < encodings.length := fun i hi =>
    h.lt_of_mem_blockEntityIds (List.mem_of_mem_drop (List.mem_of_mem_take hi))
  have hsorted : ids.Pairwise (· ≤ ·) :=
    ((pairwise_blockEntityIds db dpId blockId).sublist (List.drop_sublist _ _)).sublist
      (List.take_sublist _ _)
  have hchunk : getEncodingChunk db ⟨dpId, datasetIndex, range, blockId⟩ size = do
      let chunkData ← binaryUnpackFilters (db.getChunkOfEncodings dpId ids) size
      return (chunkData, chunkData.length) := rfl
  rw [hchunk, binaryUnpackFilters, binaryFormat_natCast, ok_bind]
  split_ifs with hids
  · rw [hids]
    rfl
  · have hunpack : (ids.dedup.map (storedForm size encodings)).mapM (⟨size⟩ : BitPacking).unpack =
        .ok (ids.dedup.map (record size encodings)) := by
      rw [List.mapM_map]
      exact mapM_eq_pure_map fun i hi =>
        unpack_storedForm h.length_le (hlt i (List.mem_dedup.mp hi))
    rw [h.getChunkOfEncodings_eq_ok hids hsorted hlt, ok_bind, hunpack, ok_bind, List.length_map]
    rfl

end StoredRows

section Packages
variable {db : Database} {size : ℕ} {package : Tasks.Package}

namespace StoredRows
variable {dpId : DpId} {encodings : List Bytes} (h : StoredRows db dpId size encodings)
include h

theorem foreign {blockId : BlockId} {r : EncodingBlockRow} (hr : r ∈ listedRows db dpId blockId) :
    r.encodingId ∈ db.encodings.map EncodingRow.encodingId := by
  obtain ⟨hmem, hc⟩ := List.mem_filter.mp hr
  obtain ⟨hlt, hid⟩ := h.block r hmem (of_decide_eq_true hc).1
  exact List.mem_map.mpr ⟨_, h.encoding _ hlt, hid.symm⟩

theorem unpackEncoding_eq {blockId : BlockId} {r : EncodingBlockRow}
    (hr : r ∈ listedRows db dpId blockId) {e : EncodingRow} (he : e ∈ db.encodings)
    (hid : e.encodingId = r.encodingId) :
    unpackEncoding ⟨size⟩ e.encoding = .ok (record size encodings r.entityId).2 := by
  obtain ⟨hmem, hc⟩ := List.mem_filter.mp hr
  obtain ⟨hlt, hrid⟩ := h.block r hmem (of_decide_eq_true hc).1
  obtain rfl := List.inj_on_of_nodup_map h.keys he (h.encoding _ hlt) (hid.trans hrid)
  rw [unpackEncoding, unpack_storedForm h.length_le hlt]
  rfl

theorem of_attachesBlock {chunk : Tasks.ChunkInfo} {fetched : FetchedChunk}
    (hdp : chunk.dataproviderId = dpId) (ha : AttachesBlock db size chunk fetched) :
    fetched.entityIds = blockEntityIds db dpId chunk.blockId ∧
      fetched.encodings = fetched.entityIds.map fun i => (record size encodings i).2 := by
  subst hdp
  obtain ⟨p, rows, hp, hperm, hall⟩ := ha.rows
  obtain rfl : (⟨size⟩ : BitPacking) = p := by
    rw [binaryFormat_natCast] at hp
    exact Except.ok.inj hp
  have hvalues : List.Forall₂ (· = ·) (fetched.entityIds.zip fetched.encodings)
      (rows.map fun r => record size encodings r.entityId) := by
    rw [List.forall₂_map_right_iff, List.forall₂_iff_zip]
    refine ⟨hall.length_eq, fun {value r} hmem => ?_⟩
    obtain ⟨hid, e, he, hencoding, hdata⟩ := List.forall₂_zip hall hmem
    have hr := hperm.mem_iff.mp (List.of_mem_zip hmem).2
    rw [h.unpackEncoding_eq hr he hencoding] at hdata
    exact Prod.ext hid (Except.ok.inj hdata).symm
  rw [List.forall₂_eq_eq_eq] at hvalues
  have hids := congrArg (List.map Prod.fst) hvalues
  have hencodings := congrArg (List.map Prod.snd) hvalues
  rw [List.map_fst_zip ha.aligned.le, List.map_map] at hids
  rw [List.map_snd_zip ha.aligned.ge, List.map_map] at hencodings
  constructor
  · refine List.Perm.eq_of_pairwise (fun _ _ _ _ => le_antisymm) ha.ascending
      (pairwise_blockEntityIds _ _ _) ?_
    rw [hids]
    exact (hperm.map _).trans (List.perm_insertionSort _ _).symm
  · rw [hencodings, hids, List.map_map]
    rfl

end StoredRows

/-- The sides of fetched pairs come from the sides of the pairs of the package. -/
theorem of_getEncodingChunks {dpId : DpId} {encodings : List Bytes}
    (h : StoredRows db dpId size encodings) {fetched : List (FetchedChunk × FetchedChunk)}
    (hfetched : getEncodingChunks db package size = .ok fetched)
    {pair : FetchedChunk × FetchedChunk} (hpair : pair ∈ fetched) {chunk : FetchedChunk}
    (hchunk : chunk ∈ [pair.1, pair.2]) (hdp : chunk.chunkInfo.dataproviderId = dpId) :
    chunk.entityIds = blockEntityIds db dpId chunk.chunkInfo.blockId ∧
      chunk.encodings = chunk.entityIds.map fun i => (record size encodings i).2 := by
  obtain ⟨blocks, hblocks, hfetch⟩ := bind_eq_ok.mp hfetched
  obtain ⟨p, hp, hboth⟩ := (mapM_mem hfetch).1 pair hpair
  obtain ⟨left, hleft, hboth⟩ := bind_eq_ok.mp hboth
  obtain ⟨right, hright, hboth⟩ := bind_eq_ok.mp hboth
  cases hboth
  have hside : ∃ c ∈ package.flatMap (fun pair => [pair.1, pair.2]),
      fetchedChunk (Dict.ofList blocks.flatten) c = .ok chunk := by
    rcases List.mem_cons.mp hchunk with rfl | hchunk
    · exact ⟨p.1, List.mem_flatMap.mpr ⟨p, hp, by simp⟩, hleft⟩
    · cases List.mem_singleton.mp hchunk
      exact ⟨p.2, List.mem_flatMap.mpr ⟨p, hp, by simp⟩, hright⟩
  obtain ⟨c, hc, hget⟩ := hside
  have hinfo := (fetchedChunk_eq_ok.mp hget).1
  rw [hinfo] at hdp ⊢
  refine h.of_attachesBlock hdp (attachesBlock_of_fetchedChunk h.keys hblocks hc ?_ hget)
  exact fun r hr => h.foreign (hdp ▸ hr)

theorem getEncodingChunks_succeeds
    (hall : ∀ c ∈ package.flatMap (fun pair => [pair.1, pair.2]),
      (∃ encodings, StoredRows db c.dataproviderId size encodings) ∧
        blockEntityIds db c.dataproviderId c.blockId ≠ []) :
    ∃ fetched, getEncodingChunks db package size = .ok fetched := by
  refine getEncodingChunks_of_unpacks (binaryFormat_natCast size) fun c hc => ?_
  obtain ⟨⟨encodings, h⟩, hne⟩ := hall c hc
  refine ⟨?_, fun r hr e he hid => ⟨_, h.unpackEncoding_eq hr he hid⟩⟩
  obtain ⟨i, hi⟩ := List.exists_mem_of_ne_nil _ hne
  obtain ⟨r, hr, -⟩ := List.mem_map.mp ((List.mem_insertionSort _).mp hi)
  obtain ⟨e, he, hid⟩ := List.mem_map.mp (h.foreign hr)
  exact ⟨r, hr, e, he, hid⟩

end Packages
end EntityService
