import EntityService.Database.BinaryCopy
import EntityService.EncodingStorage.Fetching
import EntityService.Lib.Sorting

/-! What a package of several chunk pairs is given: each chunk has the rows of its block, however
many chunks and providers share the stream of rows that is regrouped by block. -/
namespace EntityService
open Lib Database

def listedRows (db : Database) (dpId : DpId) (blockId : BlockId) : List EncodingBlockRow :=
  db.encodingblocks.filter fun r => r.dp = dpId ∧ r.blockId = blockId

/-- The primary key of `encodings` and the foreign key that refers to it. -/
structure EncodingKeys (db : Database) : Prop where
  primary : (db.encodings.map EncodingRow.encodingId).Nodup
  foreign : ∀ r ∈ db.encodingblocks, r.encodingId ∈ db.encodings.map EncodingRow.encodingId

/-- The entity id of the row, and what its encoding unpacks to. -/
def HoldsEncoding (db : Database) (p : BitPacking) (value : ℕ × Bytes) (r : EncodingBlockRow) :
    Prop :=
  value.1 = r.entityId ∧ ∃ e ∈ db.encodings, e.encodingId = r.encodingId ∧
    unpackEncoding p e.encoding = .ok value.2

/-- A fetched chunk has exactly the rows of its block, in ascending order of their entity ids. -/
structure AttachesBlock (db : Database) (encodingSize : ℤ) (chunk : Tasks.ChunkInfo)
    (fetched : FetchedChunk) : Prop where
  chunkInfo : fetched.chunkInfo = chunk
  aligned : fetched.entityIds.length = fetched.encodings.length
  ascending : fetched.entityIds.Pairwise (· ≤ ·)
  rows : ∃ p rows, binaryFormat encodingSize = .ok p ∧
    rows.Perm (listedRows db chunk.dataproviderId chunk.blockId) ∧
    List.Forall₂ (HoldsEncoding db p) (fetched.entityIds.zip fetched.encodings) rows

/-- The chunk pairs of the package in order, each chunk with the rows of its block. -/
def AttachesBlocks (db : Database) (encodingSize : ℤ) (package : Tasks.Package)
    (fetched : List (FetchedChunk × FetchedChunk)) : Prop :=
  List.Forall₂ (fun pair result => AttachesBlock db encodingSize pair.1 result.1 ∧
    AttachesBlock db encodingSize pair.2 result.2) package fetched

/-- An encoding that is stored with its entity id in this size. -/
def Packed (encodingSize : ℤ) (encoding : Bytes) : Prop :=
  0 ≤ encodingSize ∧ encoding.length = 4 + encodingSize

theorem packed_iff {encodingSize : ℤ} {encoding : Bytes} : Packed encodingSize encoding ↔
    ∃ p data, binaryFormat encodingSize = .ok p ∧ unpackEncoding p encoding = .ok data := by
  unfold Packed unpackEncoding BitPacking.unpack BitPacking.size
  simp only [binaryFormat_eq_ok, bind_eq_ok]
  constructor
  · rintro ⟨hpos, hlength⟩
    obtain ⟨n, rfl⟩ := Int.eq_ofNat_of_zero_le hpos
    refine ⟨⟨n⟩, _, rfl, _, if_pos ?_, rfl⟩
    dsimp only
    omega
  · rintro ⟨⟨n⟩, data, rfl, value, hvalue, -⟩
    split_ifs at hvalue with hlength
    dsimp only at hlength ⊢
    omega

section Values
variable {p : BitPacking} {values : List (BlockId × ℕ × Bytes)}
  {groups : List (BlockId × List ℕ × List Bytes)}

def unpackValue (p : BitPacking) (v : BlockId × ℕ × Bytes) :
    Except Error (BlockId × ℕ × Bytes) := do
  return (v.1, v.2.1, ← unpackEncoding p v.2.2)

theorem unpackValue_eq_ok {v w : BlockId × ℕ × Bytes} : unpackValue p v = .ok w ↔
    w.1 = v.1 ∧ w.2.1 = v.2.1 ∧ unpackEncoding p v.2.2 = .ok w.2.2 := by
  obtain ⟨b, i, data⟩ := w
  unfold unpackValue
  simp only [bind_eq_ok, pure_eq_ok, Except.ok.injEq, Prod.mk.injEq]
  constructor
  · rintro ⟨data, hdata, rfl, rfl, rfl⟩
    exact ⟨rfl, rfl, hdata⟩
  · rintro ⟨rfl, rfl, hdata⟩
    exact ⟨data, hdata, rfl, rfl, rfl⟩

/-- The entity ids and the encodings of a run. -/
def ofRun (run : BlockId × List (BlockId × ℕ × Bytes)) : BlockId × List ℕ × List Bytes :=
  (run.1, run.2.map fun v => v.2.1, run.2.map fun v => v.2.2)

/-- The loop gives the runs of the unpacked values, the one that it is in first. -/
theorem blockValues_eq (p : BitPacking) (b : BlockId) (run values : List (BlockId × ℕ × Bytes)) :
    blockValues p b (run.map fun v => v.2.1) (run.map fun v => v.2.2) values = do
      return (runsFrom Prod.fst b run (← values.mapM (unpackValue p))).map ofRun := by
  induction values generalizing b run with
  | nil => rfl
  | cons v values ih =>
    obtain ⟨newId, entityId, encoding⟩ := v
    rw [blockValues, List.mapM_cons, unpackValue]
    cases unpackEncoding p encoding with
    | error e => rfl
    | ok data =>
      by_cases hid : newId = b
      · have hrun := ih b (run ++ [(newId, entityId, data)])
        rw [List.map_append, List.map_append] at hrun
        simp only [ok_bind, if_pos hid, bind_assoc, pure_bind, runsFrom]
        exact hrun
      · have hrun := ih newId [(newId, entityId, data)]
        rw [List.map_singleton, List.map_singleton] at hrun
        simp only [ok_bind, if_neg hid, bind_assoc, pure_bind, runsFrom, List.map_cons]
        rw [hrun, bind_assoc]
        rfl

/-- The generator gives the runs of the unpacked values. -/
theorem blockValuesIter_eq (hne : values ≠ []) : blockValuesIter p values = do
    return (runs Prod.fst (← values.mapM (unpackValue p))).map ofRun := by
  cases values with
  | nil => exact absurd rfl hne
  | cons v values =>
    obtain ⟨blockId, entityId, encoding⟩ := v
    rw [blockValuesIter, List.mapM_cons, unpackValue]
    cases unpackEncoding p encoding with
    | error e => rfl
    | ok data =>
      have hrun := blockValues_eq p blockId [(blockId, entityId, data)] values
      rw [List.map_singleton, List.map_singleton] at hrun
      simp only [ok_bind, bind_assoc, pure_bind, runs]
      exact hrun

theorem keys_unpacked {unpacked : List (BlockId × ℕ × Bytes)}
    (h : values.mapM (unpackValue p) = .ok unpacked) :
    values.map Prod.fst = unpacked.map Prod.fst := by
  have hkeys : List.Forall₂ (· = ·) (values.map Prod.fst) (unpacked.map Prod.fst) := by
    rw [List.forall₂_map_left_iff, List.forall₂_map_right_iff]
    exact (mapM_eq_ok.mp h).imp fun v w hvw => (unpackValue_eq_ok.mp hvw).1.symm
  rwa [List.forall₂_eq_eq_eq] at hkeys

theorem pairwise_unpacked {unpacked : List (BlockId × ℕ × Bytes)}
    (h : values.mapM (unpackValue p) = .ok unpacked)
    (hsorted : values.Pairwise fun v w => v.1 ≤ w.1) :
    unpacked.Pairwise fun v w => v.1 ≤ w.1 := by
  have hall := List.pairwise_map.mpr hsorted
  rw [keys_unpacked h] at hall
  exact List.pairwise_map.mp hall

theorem of_mem_blockValuesIter (hsorted : values.Pairwise fun v w => v.1 ≤ w.1)
    (h : blockValuesIter p values = .ok groups) {k : BlockId} {is : List ℕ} {cs : List Bytes}
    (hk : (k, is, cs) ∈ groups) : is.length = cs.length ∧
      is = (values.filter (fun v => v.1 = k)).map (fun v => v.2.1) ∧
      List.Forall₂ (fun value v => value.1 = v.2.1 ∧ unpackEncoding p v.2.2 = .ok value.2)
        (is.zip cs) (values.filter fun v => v.1 = k) := by
  have hne : values ≠ [] := by
    rintro rfl
    cases h
  rw [blockValuesIter_eq hne] at h
  obtain ⟨unpacked, hunpacked, h⟩ := bind_eq_ok.mp h
  obtain rfl := Except.ok.inj h
  have hpairwise := pairwise_unpacked hunpacked hsorted
  obtain ⟨⟨k, run⟩, hrun, he⟩ := List.mem_map.mp hk
  cases he
  obtain ⟨-, hrun⟩ := (mem_runs hpairwise).mp hrun
  have hfilter : List.Forall₂ (fun v w => unpackValue p v = .ok w)
      (values.filter fun v => v.1 = k) (unpacked.filter fun v => v.1 = k) := by
    refine List.rel_filter (fun v w hvw => ?_) (mapM_eq_ok.mp hunpacked)
    simp only [(unpackValue_eq_ok.mp hvw).1]
  dsimp only at hrun ⊢
  rw [hrun]
  refine ⟨by simp, ?_, ?_⟩
  · have hids : List.Forall₂ (· = ·) ((unpacked.filter fun v => v.1 = k).map fun v => v.2.1)
        ((values.filter fun v => v.1 = k).map fun v => v.2.1) := by
      rw [List.forall₂_map_left_iff, List.forall₂_map_right_iff]
      exact (hfilter.imp fun v w hvw => (unpackValue_eq_ok.mp hvw).2.1).flip
    rwa [List.forall₂_eq_eq_eq] at hids
  · rw [List.zip_map', List.forall₂_map_left_iff]
    exact (hfilter.imp fun v w hvw => (unpackValue_eq_ok.mp hvw).2).flip

theorem blockValuesIter_succeeds (hne : values ≠ [])
    (hsorted : values.Pairwise fun v w => v.1 ≤ w.1)
    (hunpack : ∀ v ∈ values, ∃ data, unpackEncoding p v.2.2 = .ok data) :
    ∃ groups, blockValuesIter p values = .ok groups ∧
      ∀ k ∈ values.map Prod.fst, k ∈ groups.map Prod.fst := by
  have hunpackValue : ∀ v ∈ values, ∃ w, unpackValue p v = .ok w := by
    intro v hv
    obtain ⟨data, hdata⟩ := hunpack v hv
    exact ⟨(v.1, v.2.1, data), unpackValue_eq_ok.mpr ⟨rfl, rfl, hdata⟩⟩
  obtain ⟨unpacked, hunpacked⟩ := mapM_succeeds hunpackValue
  have hkeys := keys_unpacked hunpacked
  have hpairwise := pairwise_unpacked hunpacked hsorted
  refine ⟨(runs Prod.fst unpacked).map ofRun, ?_, fun k hk => ?_⟩
  · rw [blockValuesIter_eq hne, hunpacked]
    rfl
  · have hrun := (mem_runs hpairwise).mpr ⟨hkeys ▸ hk, rfl⟩
    rw [List.map_map]
    exact List.mem_map_of_mem hrun

end Values

/-- The order in which the values of several blocks are fetched. -/
def valueLe (a b : BlockId × ℕ × Bytes) : Prop := a.1 < b.1 ∨ a.1 = b.1 ∧ a.2.1 ≤ b.2.1

instance : DecidableRel valueLe := fun a b =>
  inferInstanceAs (Decidable (a.1 < b.1 ∨ a.1 = b.1 ∧ a.2.1 ≤ b.2.1))

theorem pairwise_getEncodingsOfMultipleBlocks (db : Database) (dpId : DpId)
    (blockIds : List BlockId) :
    (db.getEncodingsOfMultipleBlocks dpId blockIds).Pairwise valueLe := by
  have htotal : ∀ m i n j : ℕ, (m < n ∨ m = n ∧ i ≤ j) ∨ n < m ∨ n = m ∧ j ≤ i := by omega
  have htrans : ∀ m i n j k l : ℕ, (m < n ∨ m = n ∧ i ≤ j) → (n < k ∨ n = k ∧ j ≤ l) →
      m < k ∨ m = k ∧ i ≤ l := by omega
  have : Std.Total valueLe := ⟨fun a b => htotal a.1 a.2.1 b.1 b.2.1⟩
  have : IsTrans _ valueLe := ⟨fun a b c => htrans a.1 a.2.1 b.1 b.2.1 c.1 c.2.1⟩
  exact List.pairwise_insertionSort valueLe _

theorem pairwise_block_getEncodingsOfMultipleBlocks (db : Database) (dpId : DpId)
    (blockIds : List BlockId) :
    (db.getEncodingsOfMultipleBlocks dpId blockIds).Pairwise fun a b => a.1 ≤ b.1 := by
  refine (pairwise_getEncodingsOfMultipleBlocks db dpId blockIds).imp fun hab => ?_
  rcases hab with hlt | ⟨heq, -⟩
  · exact hlt.le
  · exact heq.le

section Block
variable {db : Database} {dpId : DpId} {blockIds : List BlockId}

def joined (db : Database) (r : EncodingBlockRow) : List (BlockId × ℕ × Bytes) :=
  (db.encodings.filter (fun e => e.encodingId = r.encodingId)).map
    fun e => (r.blockId, r.entityId, e.encoding)

theorem perm_getEncodingsOfMultipleBlocks (db : Database) (dpId : DpId)
    (blockIds : List BlockId) : (db.getEncodingsOfMultipleBlocks dpId blockIds).Perm
      ((db.encodingblocks.filter fun r => r.dp = dpId ∧ r.blockId ∈ blockIds).flatMap
        (joined db)) := List.perm_insertionSort _ _

theorem mem_getEncodingsOfMultipleBlocks {v : BlockId × ℕ × Bytes} :
    v ∈ db.getEncodingsOfMultipleBlocks dpId blockIds ↔
      ∃ blockId ∈ blockIds, ∃ r ∈ listedRows db dpId blockId, ∃ e ∈ db.encodings,
        e.encodingId = r.encodingId ∧ v = (blockId, r.entityId, e.encoding) := by
  rw [(perm_getEncodingsOfMultipleBlocks db dpId blockIds).mem_iff]
  simp only [joined, listedRows, List.mem_flatMap, List.mem_map, List.mem_filter, decide_eq_true_eq]
  constructor
  · rintro ⟨r, ⟨hr, hdp, hblock⟩, e, ⟨he, hid⟩, rfl⟩
    exact ⟨_, hblock, r, ⟨hr, hdp, rfl⟩, e, he, hid, rfl⟩
  · rintro ⟨blockId, hblock, r, ⟨hr, hdp, rfl⟩, e, he, hid, rfl⟩
    exact ⟨r, ⟨hr, hdp, hblock⟩, e, ⟨he, hid⟩, rfl⟩

theorem rows_of_block (hprimary : (db.encodings.map EncodingRow.encodingId).Nodup)
    {blockId : BlockId} (hblock : blockId ∈ blockIds)
    (hforeign : ∀ r ∈ listedRows db dpId blockId,
      r.encodingId ∈ db.encodings.map EncodingRow.encodingId) :
    ∃ rows, rows.Perm (listedRows db dpId blockId) ∧
      List.Forall₂ (fun v r => v.2.1 = r.entityId ∧
        ∃ e ∈ db.encodings, e.encodingId = r.encodingId ∧ v.2.2 = e.encoding)
        ((db.getEncodingsOfMultipleBlocks dpId blockIds).filter fun v => v.1 = blockId) rows := by
  have hrows : (db.encodingblocks.filter (fun r => r.dp = dpId ∧ r.blockId ∈ blockIds)).filter
      (fun r => r.blockId = blockId) = listedRows db dpId blockId := by
    rw [listedRows, List.filter_filter]
    refine List.filter_congr fun r _ => ?_
    by_cases hr : r.blockId = blockId <;> simp [hr, hblock]
  have hperm := (perm_getEncodingsOfMultipleBlocks db dpId blockIds).filter
    fun v => v.1 = blockId
  have hkey : ∀ r, ∀ v ∈ joined db r, v.1 = r.blockId := by
    intro r v hv
    obtain ⟨e, -, rfl⟩ := List.mem_map.mp hv
    rfl
  rw [filter_flatMap_key hkey, hrows] at hperm
  have hjoin : ∀ r ∈ listedRows db dpId blockId, ∃ v, joined db r = [v] ∧
      v.2.1 = r.entityId ∧
      ∃ e ∈ db.encodings, e.encodingId = r.encodingId ∧ v.2.2 = e.encoding := by
    intro r hr
    obtain ⟨e, he, hid⟩ := List.mem_map.mp (hforeign r hr)
    refine ⟨(r.blockId, r.entityId, e.encoding), ?_, rfl, e, he, hid, rfl⟩
    rw [joined, ← hid, filter_eq_singleton hprimary he]
    rfl
  obtain ⟨rows, hall, hrows⟩ := List.perm_comp_forall₂ hperm (forall₂_flatMap hjoin)
  exact ⟨rows, hrows, hall⟩

theorem pairwise_block (db : Database) (dpId : DpId) (blockIds : List BlockId)
    (blockId : BlockId) : (((db.getEncodingsOfMultipleBlocks dpId blockIds).filter
      fun v => v.1 = blockId).map fun v => v.2.1).Pairwise (· ≤ ·) := by
  have hsorted := (pairwise_getEncodingsOfMultipleBlocks db dpId blockIds).filter
    fun v => v.1 = blockId
  refine List.pairwise_map.mpr (hsorted.imp_of_mem fun {v w} hv hw hle => ?_)
  have hv := of_decide_eq_true (List.mem_filter.mp hv).2
  have hw := of_decide_eq_true (List.mem_filter.mp hw).2
  rcases hle with hlt | ⟨-, hle⟩
  · rw [hv, hw] at hlt
    exact absurd hlt (lt_irrefl _)
  · exact hle

/-- A value as it is copied: block ids and entity ids are of type `integer`. -/
def copiedValue (v : BlockId × ℕ × Bytes) : List Bytes :=
  [packUInt32 v.1, packUInt32 v.2.1, v.2.2]

/-- The value in a row of three fields. -/
def valueOfRow : Row → Option (BlockId × ℕ × Bytes)
  | .values [binBlockId, binEncodingId, binEncoding] =>
    some (fromBytes binBlockId, fromBytes binEncodingId, binEncoding)
  | _ => none

/-- The values are read back from the binary copy of the query. -/
theorem values_copied (hcolumns : ∀ v ∈ db.getEncodingsOfMultipleBlocks dpId blockIds,
      v.1 < 2 ^ 31 ∧ v.2.1 < 2 ^ 31 ∧ v.2.2.length < 2 ^ 31) {n : ℕ}
    (hn : (db.getEncodingsOfMultipleBlocks dpId blockIds).length < n) :
    ∃ rows, binaryRows n (copyStream ((db.getEncodingsOfMultipleBlocks dpId blockIds).map
        copiedValue)) = .ok (some rows) ∧
      rows.mapM valueOfRow = some (db.getEncodingsOfMultipleBlocks dpId blockIds) := by
  generalize db.getEncodingsOfMultipleBlocks dpId blockIds = values at hcolumns hn ⊢
  have hcopyable : Copyable (values.map copiedValue) := by
    constructor
    · intro row hrow
      obtain ⟨v, -, rfl⟩ := List.mem_map.mp hrow
      exact show 3 < 2 ^ 15 by decide
    · intro row hrow
      obtain ⟨v, hv, rfl⟩ := List.mem_map.mp hrow
      have hencoding := (hcolumns v hv).2.2
      simpa [copiedValue] using hencoding
  have hrows := binaryRows_append hcopyable (n := n) (by simpa using hn) []
  rw [List.append_nil] at hrows
  refine ⟨_, hrows, ?_⟩
  rw [List.map_map, List.mapM_map]
  have hread : ∀ v ∈ values, (valueOfRow ∘ Row.ofValues ∘ copiedValue) v = pure v := by
    intro v hv
    obtain ⟨hblock, hentity, -⟩ := hcolumns v hv
    have hlt : 2 ^ 31 < 2 ^ 32 := by decide
    have hblock : fromBytes (packUInt32 v.1) = v.1 := fromBytes_packUInt32 (hblock.trans hlt)
    have hentity : fromBytes (packUInt32 v.2.1) = v.2.1 :=
      fromBytes_packUInt32 (hentity.trans hlt)
    change some (fromBytes (packUInt32 v.1), fromBytes (packUInt32 v.2.1), v.2.2) = some v
    rw [hblock, hentity]
  rw [mapM_eq_pure_map (g := id) hread, List.map_id]
  rfl

end Block

section Provider
variable {db : Database} {dpId : DpId} {encodingSize : ℤ} {chunks : List Tasks.ChunkInfo}
  {entries : List ((DpId × BlockId) × List ℕ × List Bytes)}

theorem mem_blockIds {chunk : Tasks.ChunkInfo} (hchunk : chunk ∈ chunks) :
    chunk.blockId ∈ (chunks.insertionSort fun a b => a.blockId ≤ b.blockId).map
      Tasks.ChunkInfo.blockId := List.mem_map_of_mem ((List.mem_insertionSort _).mpr hchunk)

theorem provider_of_mem_blocksOfDp (h : blocksOfDp db encodingSize dpId chunks = .ok entries)
    {entry : (DpId × BlockId) × List ℕ × List Bytes} (hmem : entry ∈ entries) :
    entry.1.1 = dpId := by
  obtain ⟨p, -, h⟩ := bind_eq_ok.mp h
  obtain ⟨groups, -, h⟩ := bind_eq_ok.mp h
  obtain rfl := Except.ok.inj h
  obtain ⟨group, -, rfl⟩ := List.mem_map.mp hmem
  rfl

theorem attachesBlock_of_mem_blocksOfDp
    (hprimary : (db.encodings.map EncodingRow.encodingId).Nodup) {chunk : Tasks.ChunkInfo}
    (hchunk : chunk ∈ chunks) (hforeign : ∀ r ∈ listedRows db chunk.dataproviderId chunk.blockId,
      r.encodingId ∈ db.encodings.map EncodingRow.encodingId)
    (h : blocksOfDp db encodingSize chunk.dataproviderId chunks = .ok entries) {is : List ℕ}
    {cs : List Bytes} (hmem : ((chunk.dataproviderId, chunk.blockId), is, cs) ∈ entries) :
    AttachesBlock db encodingSize chunk ⟨chunk, is, cs⟩ := by
  obtain ⟨p, hp, h⟩ := bind_eq_ok.mp h
  obtain ⟨groups, hgroups, h⟩ := bind_eq_ok.mp h
  obtain rfl := Except.ok.inj h
  obtain ⟨⟨k, group⟩, hgroup, he⟩ := List.mem_map.mp hmem
  obtain ⟨hkey, rfl⟩ := Prod.mk.inj he
  obtain rfl : k = chunk.blockId := (Prod.mk.inj hkey).2
  obtain ⟨hlength, hids, hvalues⟩ := of_mem_blockValuesIter
    (pairwise_block_getEncodingsOfMultipleBlocks _ _ _) hgroups hgroup
  obtain ⟨rows, hperm, hrows⟩ := rows_of_block hprimary (mem_blockIds hchunk) hforeign
  refine ⟨rfl, hlength, ?_, p, rows, hp, hperm, ?_⟩
  · dsimp only
    rw [hids]
    exact pairwise_block _ _ _ _
  · refine (forall₂_comp hvalues hrows).imp ?_
    rintro value r ⟨v, ⟨hid, hdata⟩, hentity, e, he, hencoding, hstored⟩
    exact ⟨hid.trans hentity, e, he, hencoding, hstored ▸ hdata⟩

/-- The row is joined with an encoding, and all its encodings unpack. -/
def Unpacks (db : Database) (p : BitPacking) (dpId : DpId) (blockId : BlockId) : Prop :=
  (∃ r ∈ listedRows db dpId blockId, ∃ e ∈ db.encodings, e.encodingId = r.encodingId) ∧
    ∀ r ∈ listedRows db dpId blockId, ∀ e ∈ db.encodings, e.encodingId = r.encodingId →
      ∃ data, unpackEncoding p e.encoding = .ok data

/-- The blocks of a provider are fetched when all of them have rows that unpack. -/
theorem blocksOfDp_succeeds {p : BitPacking} (hp : binaryFormat encodingSize = .ok p)
    (hne : chunks ≠ []) (hall : ∀ c ∈ chunks, Unpacks db p dpId c.blockId) :
    ∃ entries, blocksOfDp db encodingSize dpId chunks = .ok entries ∧
      ∀ c ∈ chunks, (dpId, c.blockId) ∈ entries.map Prod.fst := by
  have hvalue : ∀ c ∈ chunks, c.blockId ∈ (db.getEncodingsOfMultipleBlocks dpId
      ((chunks.insertionSort fun a b => a.blockId ≤ b.blockId).map
        Tasks.ChunkInfo.blockId)).map Prod.fst := by
    intro c hc
    obtain ⟨⟨r, hr, e, he, hid⟩, -⟩ := hall c hc
    exact List.mem_map.mpr ⟨_, mem_getEncodingsOfMultipleBlocks.mpr
      ⟨_, mem_blockIds hc, r, hr, e, he, hid, rfl⟩, rfl⟩
  obtain ⟨c, hc⟩ := List.exists_mem_of_ne_nil _ hne
  have hunpack : ∀ v ∈ db.getEncodingsOfMultipleBlocks dpId
      ((chunks.insertionSort fun a b => a.blockId ≤ b.blockId).map Tasks.ChunkInfo.blockId),
      ∃ data, unpackEncoding p v.2.2 = .ok data := by
    intro v hv
    obtain ⟨blockId, hblock, r, hr, e, he, hid, rfl⟩ := mem_getEncodingsOfMultipleBlocks.mp hv
    obtain ⟨c, hc, rfl⟩ := List.mem_map.mp hblock
    exact (hall c ((List.mem_insertionSort _).mp hc)).2 r hr e he hid
  obtain ⟨groups, hgroups, hkeys⟩ := blockValuesIter_succeeds
    (List.ne_nil_of_mem (List.mem_map.mp (hvalue c hc)).choose_spec.1)
    (pairwise_block_getEncodingsOfMultipleBlocks _ _ _) hunpack
  refine ⟨groups.map fun block => ((dpId, block.1), block.2), ?_, fun c hc => ?_⟩
  · unfold blocksOfDp
    rw [hp, ok_bind, hgroups]
    rfl
  · obtain ⟨g, hg, he⟩ := List.mem_map.mp (hkeys _ (hvalue c hc))
    rw [List.map_map]
    exact List.mem_map.mpr ⟨g, hg, by rw [← he]; rfl⟩

end Provider

section Packages
variable {db : Database} {encodingSize : ℤ} {package : Tasks.Package}

theorem mem_chunksPerDp {dpId : DpId} {chunks : List Tasks.ChunkInfo} :
    (dpId, chunks) ∈ (chunksPerDp package).entries ↔
      dpId ∈ (package.flatMap fun pair => [pair.1, pair.2]).map Tasks.ChunkInfo.dataproviderId ∧
      chunks = (package.flatMap fun pair => [pair.1, pair.2]).filter
        (fun c => c.dataproviderId = dpId) := by
  rw [← Dict.get?_eq_some, chunksPerDp, Dict.get?_groupBy]
  split_ifs with hmem
  · simp [hmem, eq_comm]
  · simp [hmem]

theorem fetchedChunk_eq_ok {fetched : FetchedChunk} {chunkInfo : Tasks.ChunkInfo}
    {encodingsWithIds : Dict (DpId × BlockId) (List ℕ × List Bytes)} :
    fetchedChunk encodingsWithIds chunkInfo = .ok fetched ↔
      fetched.chunkInfo = chunkInfo ∧
        encodingsWithIds.get? (chunkInfo.dataproviderId, chunkInfo.blockId) =
          some (fetched.entityIds, fetched.encodings) := by
  obtain ⟨info, is, cs⟩ := fetched
  unfold fetchedChunk
  simp only [bind_eq_ok, orRaise_eq_ok, pure_eq_ok, Except.ok.injEq, FetchedChunk.mk.injEq,
    Prod.exists]
  constructor
  · rintro ⟨is', cs', hget, rfl, rfl, rfl⟩
    exact ⟨rfl, hget⟩
  · rintro ⟨rfl, hget⟩
    exact ⟨is, cs, hget, rfl, rfl, rfl⟩

theorem mem_filter_self {chunks : List Tasks.ChunkInfo} {c : Tasks.ChunkInfo} (hc : c ∈ chunks) :
    c ∈ chunks.filter (fun c' => c'.dataproviderId = c.dataproviderId) :=
  List.mem_filter.mpr ⟨hc, decide_eq_true rfl⟩

theorem attachesBlock_of_fetchedChunk
    (hprimary : (db.encodings.map EncodingRow.encodingId).Nodup)
    {blocks : List (List ((DpId × BlockId) × List ℕ × List Bytes))}
    (hblocks : ((chunksPerDp package).entries.mapM fun p => blocksOfDp db encodingSize p.1 p.2) =
      .ok blocks) {c : Tasks.ChunkInfo} (hc : c ∈ package.flatMap fun pair => [pair.1, pair.2])
    (hforeign : ∀ r ∈ listedRows db c.dataproviderId c.blockId,
      r.encodingId ∈ db.encodings.map EncodingRow.encodingId) {chunk : FetchedChunk}
    (hchunk : fetchedChunk (Dict.ofList blocks.flatten) c = .ok chunk) :
    AttachesBlock db encodingSize c chunk := by
  obtain ⟨rfl, hget⟩ := fetchedChunk_eq_ok.mp hchunk
  obtain ⟨entries, hentries, hmem⟩ := List.mem_flatten.mp (Dict.mem_of_get?_ofList hget)
  obtain ⟨⟨dpId, chunks⟩, hdpchunks, hok⟩ := (mapM_mem hblocks).1 entries hentries
  obtain ⟨-, rfl⟩ := mem_chunksPerDp.mp hdpchunks
  obtain rfl : chunk.chunkInfo.dataproviderId = dpId := provider_of_mem_blocksOfDp hok hmem
  exact attachesBlock_of_mem_blocksOfDp hprimary (mem_filter_self hc) hforeign hok hmem

theorem attachesBlock_of_getEncodingChunks
    (hprimary : (db.encodings.map EncodingRow.encodingId).Nodup)
    (hforeign : ∀ c ∈ package.flatMap (fun pair => [pair.1, pair.2]),
      ∀ r ∈ listedRows db c.dataproviderId c.blockId,
        r.encodingId ∈ db.encodings.map EncodingRow.encodingId)
    {fetched : List (FetchedChunk × FetchedChunk)}
    (h : getEncodingChunks db package encodingSize = .ok fetched) :
    AttachesBlocks db encodingSize package fetched := by
  obtain ⟨blocks, hblocks, hfetch⟩ := bind_eq_ok.mp h
  have hmem : ∀ pair ∈ package, pair ∈ package := fun _ => id
  refine ((List.forall₂_and_left _ _).mpr ⟨hmem, mapM_eq_ok.mp hfetch⟩).imp ?_
  rintro pair result ⟨hpair, hboth⟩
  have hsides : ∀ c ∈ [pair.1, pair.2], c ∈ package.flatMap fun pair => [pair.1, pair.2] :=
    fun c hc => List.mem_flatMap.mpr ⟨pair, hpair, hc⟩
  obtain ⟨left, hleft, hboth⟩ := bind_eq_ok.mp hboth
  obtain ⟨right, hright, hboth⟩ := bind_eq_ok.mp hboth
  obtain rfl := Except.ok.inj hboth
  have h1 := hsides pair.1 (by simp)
  have h2 := hsides pair.2 (by simp)
  exact ⟨attachesBlock_of_fetchedChunk hprimary hblocks h1 (hforeign _ h1) hleft,
    attachesBlock_of_fetchedChunk hprimary hblocks h2 (hforeign _ h2) hright⟩

theorem getEncodingChunks_of_unpacks {p : BitPacking} (hp : binaryFormat encodingSize = .ok p)
    (hall : ∀ c ∈ package.flatMap (fun pair => [pair.1, pair.2]),
      Unpacks db p c.dataproviderId c.blockId) :
    ∃ fetched, getEncodingChunks db package encodingSize = .ok fetched := by
  have hdp : ∀ q ∈ (chunksPerDp package).entries, ∃ entries,
      blocksOfDp db encodingSize q.1 q.2 = .ok entries ∧
        ∀ c ∈ q.2, (q.1, c.blockId) ∈ entries.map Prod.fst := by
    rintro ⟨dpId, chunks⟩ hq
    obtain ⟨hmem, rfl⟩ := mem_chunksPerDp.mp hq
    obtain ⟨c, hc, rfl⟩ := List.mem_map.mp hmem
    refine blocksOfDp_succeeds hp (List.ne_nil_of_mem (mem_filter_self hc)) fun c' hc' => ?_
    obtain ⟨hc', hsame⟩ := List.mem_filter.mp hc'
    exact of_decide_eq_true hsame ▸ hall c' hc'
  obtain ⟨blocks, hblocks⟩ := mapM_succeeds fun q hq =>
    (hdp q hq).imp fun entries hentries => hentries.1
  have hside : ∀ c ∈ package.flatMap (fun pair => [pair.1, pair.2]),
      ∃ chunk, fetchedChunk (Dict.ofList blocks.flatten) c = .ok chunk := by
    intro c hc
    have hentry := mem_chunksPerDp.mpr ⟨List.mem_map_of_mem hc, rfl⟩
    obtain ⟨entries, hentries, hok⟩ := (mapM_mem hblocks).2 _ hentry
    obtain ⟨entries', hok', hkeys⟩ := hdp _ hentry
    obtain rfl := Except.ok.inj (hok.symm.trans hok')
    have hkey : (c.dataproviderId, c.blockId) ∈ (Dict.ofList blocks.flatten).keys := by
      rw [Dict.mem_keys_ofList, List.map_flatten]
      exact List.mem_flatten.mpr ⟨_, List.mem_map_of_mem hentries, hkeys c (mem_filter_self hc)⟩
    obtain ⟨⟨is, cs⟩, hget⟩ := Dict.mem_keys_iff.mp hkey
    exact ⟨⟨c, is, cs⟩, fetchedChunk_eq_ok.mpr ⟨rfl, hget⟩⟩
  have hpairs : ∀ pair ∈ package, ∃ fetched, (do
      let left ← fetchedChunk (Dict.ofList blocks.flatten) pair.1
      let right ← fetchedChunk (Dict.ofList blocks.flatten) pair.2
      return (left, right)) = .ok fetched := by
    intro pair hpair
    obtain ⟨left, hleft⟩ := hside pair.1 (List.mem_flatMap.mpr ⟨pair, hpair, by simp⟩)
    obtain ⟨right, hright⟩ := hside pair.2 (List.mem_flatMap.mpr ⟨pair, hpair, by simp⟩)
    exact ⟨(left, right), by rw [hleft, ok_bind, hright]; rfl⟩
  obtain ⟨fetched, hfetch⟩ := mapM_succeeds hpairs
  exact ⟨fetched, bind_eq_ok.mpr ⟨blocks, hblocks, hfetch⟩⟩

end Packages

section Attached
variable {db : Database} (hkeys : EncodingKeys db) {package : Tasks.Package}
  (hrows : ∀ pair ∈ package, ∀ chunk ∈ [pair.1, pair.2],
    listedRows db chunk.dataproviderId chunk.blockId ≠ [])
  (encodingSize : ℤ)
include hkeys

theorem packed_of_attachesBlock {chunk : Tasks.ChunkInfo} {fetched : FetchedChunk}
    (h : AttachesBlock db encodingSize chunk fetched) {r : EncodingBlockRow}
    (hr : r ∈ listedRows db chunk.dataproviderId chunk.blockId) {e : EncodingRow}
    (he : e ∈ db.encodings) (hid : e.encodingId = r.encodingId) :
    Packed encodingSize e.encoding := by
  obtain ⟨p, rows, hp, hperm, hall⟩ := h.rows
  obtain ⟨value, -, -, e', he', hid', hdata⟩ := exists_of_forall₂ hall (hperm.mem_iff.mpr hr)
  obtain rfl : e = e' := List.inj_on_of_nodup_map hkeys.primary he he' (hid.trans hid'.symm)
  exact packed_iff.mpr ⟨p, value.2, hp, hdata⟩

include hrows

theorem unpacks_of_packed {p : BitPacking} (hp : binaryFormat encodingSize = .ok p)
    {pair : Tasks.ChunkPair} (hpair : pair ∈ package) {chunk : Tasks.ChunkInfo}
    (hchunk : chunk ∈ [pair.1, pair.2])
    (hpacked : ∀ r ∈ listedRows db chunk.dataproviderId chunk.blockId, ∀ e ∈ db.encodings,
      e.encodingId = r.encodingId → Packed encodingSize e.encoding) :
    Unpacks db p chunk.dataproviderId chunk.blockId := by
  refine ⟨?_, fun r hr e he hid => ?_⟩
  · obtain ⟨r, hr⟩ := List.exists_mem_of_ne_nil _ (hrows pair hpair chunk hchunk)
    obtain ⟨e, he, hid⟩ := List.mem_map.mp (hkeys.foreign r (List.mem_of_mem_filter hr))
    exact ⟨r, hr, e, he, hid⟩
  · obtain ⟨p', data, hp', hdata⟩ := packed_iff.mp (hpacked r hr e he hid)
    obtain rfl := Except.ok.inj (hp.symm.trans hp')
    exact ⟨data, hdata⟩

/-- Each chunk is given exactly the rows of its block, in ascending order, and the call returns
when these rows are stored in the size that it unpacks. -/
theorem getEncodingChunks_attaches :
    ((∃ fetched, getEncodingChunks db package encodingSize = .ok fetched) ↔
      ∀ pair ∈ package, ∀ chunk ∈ [pair.1, pair.2],
        ∀ r ∈ listedRows db chunk.dataproviderId chunk.blockId, ∀ e ∈ db.encodings,
          e.encodingId = r.encodingId → Packed encodingSize e.encoding) ∧
      ∀ fetched, getEncodingChunks db package encodingSize = .ok fetched →
        AttachesBlocks db encodingSize package fetched := by
  have hattaches : ∀ fetched, getEncodingChunks db package encodingSize = .ok fetched →
      AttachesBlocks db encodingSize package fetched := fun fetched =>
    attachesBlock_of_getEncodingChunks hkeys.primary fun c _ r hr =>
      hkeys.foreign r (List.mem_of_mem_filter hr)
  refine ⟨⟨?_, fun hpacked => ?_⟩, hattaches⟩
  · rintro ⟨fetched, hfetched⟩ pair hpair chunk hchunk r hr e he hid
    obtain ⟨result, -, hleft, hright⟩ := exists_of_forall₂ (hattaches fetched hfetched).flip hpair
    rcases List.mem_cons.mp hchunk with rfl | hchunk
    · exact packed_of_attachesBlock hkeys encodingSize hleft hr he hid
    · rw [List.mem_singleton.mp hchunk] at hr
      exact packed_of_attachesBlock hkeys encodingSize hright hr he hid
  · cases package with
    | nil => exact ⟨[], rfl⟩
    | cons pair package =>
      obtain ⟨r, hr⟩ := List.exists_mem_of_ne_nil _ (hrows pair List.mem_cons_self pair.1 (by simp))
      obtain ⟨e, he, hid⟩ := List.mem_map.mp (hkeys.foreign r (List.mem_of_mem_filter hr))
      obtain ⟨p, -, hp, -⟩ :=
        packed_iff.mp (hpacked pair List.mem_cons_self pair.1 (by simp) r hr e he hid)
      refine getEncodingChunks_of_unpacks hp fun c hc => ?_
      obtain ⟨pair', hpair', hc⟩ := List.mem_flatMap.mp hc
      exact unpacks_of_packed hkeys hrows encodingSize hp hpair' hc (hpacked pair' hpair' c hc)

end Attached

/-- Two providers with encodings of one byte, of which the first has both in the block 7. -/
def twoProviders : Database where
  projects := []
  dataproviders := []
  uploads := []
  blocks := [⟨1, ['a'], 7, 2, .ready⟩, ⟨2, ['a'], 8, 1, .ready⟩, ⟨2, ['b'], 9, 1, .ready⟩]
  encodings := [⟨1 <<< 32, [0, 0, 0, 0, 65], 1⟩, ⟨(1 <<< 32) + 1, [0, 0, 0, 1, 66], 1⟩,
    ⟨2 <<< 32, [0, 0, 0, 0, 67], 2⟩, ⟨(2 <<< 32) + 1, [0, 0, 0, 1, 68], 2⟩]
  encodingblocks := [⟨1, 1, (1 <<< 32) + 1, 7⟩, ⟨1, 0, 1 <<< 32, 7⟩, ⟨2, 1, (2 <<< 32) + 1, 9⟩,
    ⟨2, 0, 2 <<< 32, 8⟩]
  nextBlockId := 10

theorem encodingKeys_twoProviders : EncodingKeys twoProviders := ⟨by decide, by decide⟩

/-- The block 7 with each block of the other provider. -/
def sharedBlock : Tasks.Package :=
  [(⟨1, 0, (0, 2), 7⟩, ⟨2, 1, (0, 1), 8⟩), (⟨1, 0, (0, 2), 7⟩, ⟨2, 1, (0, 1), 9⟩)]

theorem getEncodingChunks_attaches_sharedBlock :
    getEncodingChunks twoProviders sharedBlock 1 = .ok
        [(⟨⟨1, 0, (0, 2), 7⟩, [0, 1], [[65], [66]]⟩, ⟨⟨2, 1, (0, 1), 8⟩, [0], [[67]]⟩),
          (⟨⟨1, 0, (0, 2), 7⟩, [0, 1], [[65], [66]]⟩, ⟨⟨2, 1, (0, 1), 9⟩, [1], [[68]]⟩)] ∧
      AttachesBlocks twoProviders 1 sharedBlock
        [(⟨⟨1, 0, (0, 2), 7⟩, [0, 1], [[65], [66]]⟩, ⟨⟨2, 1, (0, 1), 8⟩, [0], [[67]]⟩),
          (⟨⟨1, 0, (0, 2), 7⟩, [0, 1], [[65], [66]]⟩, ⟨⟨2, 1, (0, 1), 9⟩, [1], [[68]]⟩)] :=
  ⟨by decide, (getEncodingChunks_attaches encodingKeys_twoProviders (by decide) 1).2 _ (by decide)⟩

/-- The rows are all there, but not in the size that the call unpacks by default. -/
theorem not_attached_defaultSize : EncodingKeys twoProviders ∧
    (∀ pair ∈ sharedBlock, ∀ chunk ∈ [pair.1, pair.2],
      listedRows twoProviders chunk.dataproviderId chunk.blockId ≠ []) ∧
    getEncodingChunks twoProviders sharedBlock 128 = .error .structError :=
  ⟨encodingKeys_twoProviders, by decide, by decide⟩

end EntityService
