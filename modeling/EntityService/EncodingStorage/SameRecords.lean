import EntityService.EncodingStorage.Fetched
import EntityService.Lib.Streams

/-! When the single-chunk and the multi-block fetch return the same records. The entity ids of
a chunk are looked up with `IN`, which loses their repetitions; the join of a package keeps
them. -/
namespace EntityService
open Lib Database

def rowsOfBlock (db : Database) (block : BlockRow) : List EncodingBlockRow :=
  db.encodingblocks.filter (fun r => r.dp = block.dp ∧ r.blockId = block.blockId)

/-- Both ways of fetching a block of `c` encodings, and all ways of cutting it, return the same
records. -/
structure SameRecords (db : Database) (size : ℤ) (block : BlockRow) (datasetIndex c : ℕ)
    (records : List (ℕ × Bytes)) : Prop where
  chunk : getEncodingChunk db ⟨block.dp, datasetIndex, (0, c), block.blockId⟩ size =
    .ok (records, records.length)
  package : ∀ package fetched, getEncodingChunks db package size = .ok fetched →
    ∀ pair ∈ fetched, ∀ chunk ∈ [pair.1, pair.2], chunk.chunkInfo.dataproviderId = block.dp →
      chunk.chunkInfo.blockId = block.blockId →
        chunk.entityIds.length = chunk.encodings.length ∧
          chunk.entityIds.zip chunk.encodings = records
  fetched : ∃ fetched, getEncodingChunks db [(⟨block.dp, datasetIndex, (0, c), block.blockId⟩,
    ⟨block.dp, datasetIndex, (0, c), block.blockId⟩)] size = .ok fetched
  cuts : ∀ cuts : List ℕ, (0 :: cuts).Pairwise (· < ·) → (0 :: cuts).getLast? = some c →
    ∃ pieces, (((0 :: cuts).zip cuts).mapM fun range => Prod.fst <$>
      getEncodingChunk db ⟨block.dp, datasetIndex, range, block.blockId⟩ size) = .ok pieces ∧
        pieces.flatten = records

/-- A block has as many rows as its count says, at least one, and lists no record twice. -/
structure ListedOnce (db : Database) (block : BlockRow) : Prop where
  nonempty : rowsOfBlock db block ≠ []
  count : block.count = (rowsOfBlock db block).length
  nodup : ((rowsOfBlock db block).map EncodingBlockRow.entityId).Nodup

theorem perm_blockEntityIds (db : Database) (block : BlockRow) :
    (blockEntityIds db block.dp block.blockId).Perm
      ((rowsOfBlock db block).map EncodingBlockRow.entityId) := List.perm_insertionSort _ _

theorem listedOnce_iff {db : Database} {block : BlockRow} :
    ListedOnce db block ↔ blockEntityIds db block.dp block.blockId ≠ [] ∧
      block.count = (blockEntityIds db block.dp block.blockId).length ∧
      (blockEntityIds db block.dp block.blockId).Nodup := by
  have hperm := perm_blockEntityIds db block
  have hlength := hperm.length_eq
  rw [List.length_map] at hlength
  have hnil : blockEntityIds db block.dp block.blockId = [] ↔ rowsOfBlock db block = [] := by
    rw [← List.length_eq_zero_iff, hlength, List.length_eq_zero_iff]
  rw [hperm.nodup_iff, hlength, ne_eq, hnil]
  exact ⟨fun h => ⟨h.nonempty, h.count, h.nodup⟩, fun h => ⟨h.1, h.2.1, h.2.2⟩⟩

section Stored
variable {db : Database} {size : ℕ} {encodings : List Bytes} {block : BlockRow}
  (h : StoredRows db block.dp size encodings)
include h

/-- A block that lists each record once is fetched in the same way by both. -/
theorem sameRecords_of_nodup {c : ℕ} (datasetIndex : ℕ)
    (hne : blockEntityIds db block.dp block.blockId ≠ [])
    (hcount : (blockEntityIds db block.dp block.blockId).length = c)
    (hnodup : (blockEntityIds db block.dp block.blockId).Nodup) :
    SameRecords db size block datasetIndex c
      ((blockEntityIds db block.dp block.blockId).map (record size encodings)) := by
  have hpiece : ∀ range : Range, range.1 < range.2 → range.2 ≤ c →
      getEncodingChunk db ⟨block.dp, datasetIndex, range, block.blockId⟩ size =
        .ok ((((blockEntityIds db block.dp block.blockId).drop range.1).take
          (range.2 - range.1)).map (record size encodings),
          (((blockEntityIds db block.dp block.blockId).drop range.1).take
            (range.2 - range.1)).length) := by
    intro range hlt hle
    have hsub : (((blockEntityIds db block.dp block.blockId).drop range.1).take
        (range.2 - range.1)).Sublist (blockEntityIds db block.dp block.blockId) :=
      (List.take_sublist _ _).trans (List.drop_sublist _ _)
    have hnonempty : ((blockEntityIds db block.dp block.blockId).drop range.1).take
        (range.2 - range.1) ≠ [] := by
      rw [ne_eq, ← List.length_eq_zero_iff, List.length_take, List.length_drop]
      omega
    rw [h.getEncodingChunk_eq, if_neg hnonempty, (hnodup.sublist hsub).dedup]
  have hpos : 0 < c := by
    rw [← hcount]
    exact List.length_pos_of_ne_nil hne
  refine ⟨?_, ?_, ?_, ?_⟩
  · rw [hpiece (0, c) hpos le_rfl, List.drop_zero, Nat.sub_zero,
      List.take_of_length_le hcount.le, List.length_map]
  · intro package fetched hfetched pair hpair chunk hchunk hdp hblock
    obtain ⟨hids, hencodings⟩ := of_getEncodingChunks h hfetched hpair hchunk hdp
    rw [hblock] at hids
    rw [hencodings, hids, List.length_map]
    refine ⟨rfl, ?_⟩
    have hzip : ((blockEntityIds db block.dp block.blockId).map id).zip
        ((blockEntityIds db block.dp block.blockId).map fun i => (record size encodings i).2) =
        (blockEntityIds db block.dp block.blockId).map (record size encodings) := List.zip_map'
    rw [List.map_id] at hzip
    exact hzip
  · refine getEncodingChunks_succeeds fun c hc => ?_
    simp only [List.flatMap_cons, List.flatMap_nil, List.append_nil, List.mem_cons,
      List.not_mem_nil, or_false, or_self] at hc
    subst hc
    exact ⟨⟨encodings, h⟩, hne⟩
  · intro cuts hcuts hlast
    refine ⟨((0 :: cuts).zip cuts).map fun range =>
      (((blockEntityIds db block.dp block.blockId).drop range.1).take
        (range.2 - range.1)).map (record size encodings), ?_, ?_⟩
    · refine mapM_eq_pure_map fun range hrange => ?_
      obtain ⟨hlt, hle⟩ := mem_zip_cuts hcuts hlast hrange
      rw [hpiece range hlt hle]
      rfl
    · have hall := flatMap_zip_cuts (blockEntityIds db block.dp block.blockId) hcuts hlast
      rw [List.drop_zero, Nat.sub_zero, List.take_of_length_le hcount.le] at hall
      rw [← List.flatMap_def, ← List.map_flatMap, hall]

/-- A block that is fetched in the same way by both lists each record once. -/
theorem nodup_of_sameRecords {datasetIndex c : ℕ} {records : List (ℕ × Bytes)}
    (hsame : SameRecords db size block datasetIndex c records) :
    blockEntityIds db block.dp block.blockId ≠ [] ∧
      (blockEntityIds db block.dp block.blockId).length = c ∧
      (blockEntityIds db block.dp block.blockId).Nodup := by
  have hchunk := hsame.chunk
  rw [h.getEncodingChunk_eq, List.drop_zero, Nat.sub_zero] at hchunk
  split_ifs at hchunk with hempty
  have hrecords := congrArg Prod.fst (Except.ok.inj hchunk)
  simp only at hrecords
  have hne : blockEntityIds db block.dp block.blockId ≠ [] := by
    intro hnil
    rw [hnil, List.take_nil] at hempty
    exact hempty rfl
  -- the package has one record for each row
  obtain ⟨fetched, hfetched⟩ := hsame.fetched
  obtain ⟨pair, hpair, hinfo⟩ : ∃ pair ∈ fetched, pair.1.chunkInfo =
      ⟨block.dp, datasetIndex, (0, c), block.blockId⟩ := by
    obtain ⟨blocks, -, hfetch⟩ := bind_eq_ok.mp hfetched
    obtain ⟨pair, hpair, hboth⟩ := (mapM_mem hfetch).2 _ List.mem_cons_self
    obtain ⟨left, hleft, hboth⟩ := bind_eq_ok.mp hboth
    obtain ⟨right, -, hboth⟩ := bind_eq_ok.mp hboth
    cases hboth
    exact ⟨_, hpair, (fetchedChunk_eq_ok.mp hleft).1⟩
  have hdp : pair.1.chunkInfo.dataproviderId = block.dp := by rw [hinfo]
  have hblock : pair.1.chunkInfo.blockId = block.blockId := by rw [hinfo]
  obtain ⟨hids, hencodings⟩ := of_getEncodingChunks h hfetched hpair List.mem_cons_self hdp
  obtain ⟨hlen, hzip⟩ := hsame.package _ fetched hfetched pair hpair pair.1 List.mem_cons_self
    hdp hblock
  have hlength : records.length = (blockEntityIds db block.dp block.blockId).length := by
    rw [← hzip, List.length_zip, ← hlen, hids, hblock, min_self]
  rw [← hrecords, List.length_map] at hlength
  have hle : (blockEntityIds db block.dp block.blockId).length ≤ c := by
    rw [← hlength]
    exact (List.dedup_sublist _).length_le.trans (List.length_take_le _ _)
  rw [List.take_of_length_le hle] at hlength
  have hnodup : (blockEntityIds db block.dp block.blockId).Nodup := by
    rw [← List.dedup_eq_self]
    exact (List.dedup_sublist _).eq_of_length hlength
  refine ⟨hne, ?_, hnodup⟩
  by_contra hcne
  -- a cut behind the last row asks for no ids at all
  have hpos := List.length_pos_of_ne_nil hne
  have hlt : (blockEntityIds db block.dp block.blockId).length < c := by omega
  obtain ⟨pieces, hpieces, -⟩ := hsame.cuts
    [(blockEntityIds db block.dp block.blockId).length, c]
    (by simp [hpos, hlt, hpos.trans hlt]) (by simp)
  obtain ⟨piece, -, hpiece⟩ := (mapM_mem hpieces).2
    ((blockEntityIds db block.dp block.blockId).length, c) (by simp)
  rw [h.getEncodingChunk_eq, List.drop_length, List.take_nil, if_pos rfl] at hpiece
  cases hpiece

end Stored

end EntityService
