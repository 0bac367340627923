import EntityService.EncodingStorage.SameRecords
import EntityService.Views.Binary
import EntityService.Views.Inline

/-! What every successful upload leaves, and the blocks of it fetched for a comparison. -/
namespace EntityService
open Lib Database

/-- The data of a provider as a successful upload leaves it. An upload of a negative size is
only successful when it stores nothing. -/
structure Uploaded (db : Database) (dpId : DpId) (size : ℤ) : Prop where
  keys : (db.encodings.map EncodingRow.encodingId).Nodup
  ingested : ∃ first blocks items, db.Ingested dpId first blocks items ∧
    ((size < 0 ∧ items = []) ∨ ∃ (s : ℕ) (encodings : List Bytes) (names : ℕ → List BlockName),
      size = s ∧ encodings.length ≤ 2 ^ 32 ∧ items = packedItems s encodings names)

namespace Tasks
variable {settings : Settings} {projectId : ProjectId} {dpId : DpId} {token : Token} {w w' : World}

theorem Completed.uploaded {db db' : Database} {count size : ℤ} {blocks : List (BlockName × ℤ)}
    {items : List Item} (h : Completed db db' dpId token count size blocks items)
    (hvacant : db.Vacant dpId) (hkeys : (db.encodings.map EncodingRow.encodingId).Nodup)
    (hitems : (size < 0 ∧ items = []) ∨ ∃ (s : ℕ) (encodings : List Bytes)
      (names : ℕ → List BlockName), size = s ∧ encodings.length ≤ 2 ^ 32 ∧
        items = packedItems s encodings names) : Uploaded db' dpId size where
  keys := by
    have hi := h.ingested hvacant
    have hnew : (items.map fun item => (dpId <<< 32) + item.1).Nodup := by
      have hcomp : items.map (fun item => (dpId <<< 32) + item.1) =
          (items.map Prod.fst).map fun i => (dpId <<< 32) + i := by
        rw [List.map_map]
        rfl
      rw [hcomp]
      exact hi.nodup.map fun i j hij => Nat.add_left_cancel hij
    rw [h.stored, List.map_append, List.map_map, List.nodup_append]
    refine ⟨hkeys, hnew, ?_⟩
    rintro a ha b hb rfl
    obtain ⟨item, hitem, rfl⟩ := List.mem_map.mp hb
    exact h.unused item hitem ha
  ingested := ⟨db.nextBlockId, blocks, items, h.ingested hvacant, hitems⟩

theorem runJob_uploaded {job : Job} (hjob : job ≠ .handleRawUpload)
    (hfresh : w.db.FreshToken token) (hvacant : w.db.Vacant dpId)
    (hkeys : (w.db.encodings.map EncodingRow.encodingId).Nodup) {r : Except Error Bool}
    (hrun : runJob settings projectId dpId token job w = (w', r))
    (hready : w'.db.ReadyUpload token) : ∃ size, Uploaded w'.db dpId size := by
  cases job with
  | handleRawUpload => exact absurd rfl hjob
  | pullExternalDataEncodingsOnly file =>
    obtain ⟨b, h⟩ := errback_ready hrun hready
    obtain ⟨count, size, encodings, hread, hcompleted⟩ :=
      pullExternalDataEncodingsOnly_ok h hfresh (Or.inl hready)
    exact ⟨size, hcompleted.uploaded hvacant hkeys
      (Or.inr ⟨size, encodings, _, rfl, hread.length_le, rfl⟩)⟩
  | pullExternalData encodingFile blocksFile =>
    obtain ⟨b, h⟩ := errback_ready hrun hready
    obtain ⟨pairs, object, count, size, n, items, -, -, hn, hitems, hnone, hcompleted⟩ :=
      pullExternalData_ok h hfresh (Or.inl hready)
    refine ⟨size, hcompleted.uploaded hvacant hkeys ?_⟩
    rcases lt_or_ge 0 n with hpos | hpos
    · obtain ⟨s, encodings, rfl, -, hlen, -, rfl⟩ := externalEncodings_eq_ok (hitems hpos)
      exact Or.inr ⟨s, encodings, _, rfl, hlen, rfl⟩
    · refine Or.inl ⟨?_, hnone hpos⟩
      by_contra hsize
      obtain ⟨s, rfl⟩ := Int.eq_ofNat_of_zero_le (not_lt.mp hsize)
      obtain ⟨n', hn', hpos'⟩ := settings.estimateGroupSize_natCast s
      obtain rfl := Except.ok.inj (hn.symm.trans hn')
      omega

end Tasks

namespace Views
open Tasks
variable {settings : Settings} {projectId : ProjectId} {dpId : DpId} {token : Token} {w w' : World}

theorem handleRawUpload_uploaded {entries : List (List JsonScalar)} {b : Bool}
    (h : handleRawUpload settings projectId dpId token (quarantined settings w dpId token entries) =
      (w', .ok b))
    (hproject : w.db.checkProjectExists projectId = true) (hfresh : w.db.FreshToken token)
    (hentries : Countable settings entries) (hvacant : w.db.Vacant dpId)
    (hkeys : (w.db.encodings.map EncodingRow.encodingId).Nodup) :
    ∃ size, Uploaded w'.db dpId size := by
  obtain ⟨size, encodings, hread, -, hcompleted⟩ := handleRawUpload_ok h hproject hfresh hentries
  exact ⟨size, hcompleted.uploaded hvacant hkeys
    (Or.inr ⟨size, encodings, _, rfl, hread.length_le, rfl⟩)⟩

theorem handleBinaryUpload_uploaded {headers : BinaryHeaders} {data : Bytes} {u : Unit}
    (h : handleBinaryUpload settings projectId dpId headers data token w = (w', .ok u))
    (hvacant : w.db.Vacant dpId) (hkeys : (w.db.encodings.map EncodingRow.encodingId).Nodup) :
    ∃ size, Uploaded w'.db dpId size := by
  obtain ⟨count, size, -, hlen, hcompleted⟩ := handleBinaryUpload_ok h
  exact ⟨size, hcompleted.uploaded hvacant hkeys (Or.inr ⟨size, _, _, rfl, hlen, rfl⟩)⟩

/-- Both ways of fetching a block of an upload return the same records exactly when the block
has as many rows as its count says, at least one, and lists no record twice. -/
theorem sameRecords_iff {db : Database} {dpId : DpId} {size : ℤ} (h : Uploaded db dpId size)
    {block : BlockRow} (hblock : block.dp = dpId) (datasetIndex : ℕ) :
    (∃ (c : ℕ) (records : List (ℕ × Bytes)), block.count = c ∧
      SameRecords db size block datasetIndex c records) ↔ ListedOnce db block := by
  subst hblock
  obtain ⟨first, blocks, items, hingested, hitems⟩ := h.ingested
  rcases hitems with ⟨hneg, rfl⟩ | ⟨s, encodings, names, rfl, hlen, rfl⟩
  · constructor
    · rintro ⟨c, records, -, hsame⟩
      obtain ⟨chunkData, hdata, -⟩ := bind_eq_ok.mp hsame.chunk
      obtain ⟨p, hp, -⟩ := bind_eq_ok.mp hdata
      have hsize := binaryFormat_eq_ok.mp hp
      omega
    · intro hlisted
      have hrows := hingested.encodingblocks
      rw [List.flatMap_nil, List.filter_eq_nil_iff] at hrows
      obtain ⟨r, hr⟩ := List.exists_mem_of_ne_nil _ hlisted.nonempty
      obtain ⟨hmem, hc⟩ := List.mem_filter.mp hr
      exact absurd (decide_eq_true (of_decide_eq_true hc).1) (hrows r hmem)
  · have hrows := storedRows_of_ingested hingested hlen h.keys
    rw [listedOnce_iff]
    constructor
    · rintro ⟨c, records, hcount, hsame⟩
      obtain ⟨hne, hlength, hnodup⟩ := nodup_of_sameRecords hrows hsame
      exact ⟨hne, by rw [hcount, hlength], hnodup⟩
    · rintro ⟨hne, hcount, hnodup⟩
      exact ⟨_, _, hcount, sameRecords_of_nodup hrows datasetIndex hne rfl hnodup⟩

def listing (n : ℕ) : List (List JsonScalar) :=
  [.str "QQ==".toList :: List.replicate n (.str ['1'])]

theorem listedNames_listing (blake2b : Blake2b) (n : ℕ) :
    listedNames blake2b (listing n) = List.replicate n (hashBlockName blake2b (.str ['1'])) := by
  simp [listedNames, listing]

/-- The block `1` of an upload has a row for each time that it is listed. -/
theorem uploaded_listing {n : ℕ} (hpos : 0 < n) (hn : n < 2 ^ 31) :
    ∃ w' b block, handleRawUpload defaultSettings "project" 1 "receipt"
        (quarantined defaultSettings ⟨newProject true, Dict.empty, Dict.empty⟩ 1 "receipt"
          (listing n)) = (w', .ok b) ∧ Uploaded w'.db 1 1 ∧ block ∈ w'.db.blocks ∧ block.dp = 1 ∧
      block.count = n ∧
      (rowsOfBlock w'.db block).map EncodingBlockRow.entityId = List.replicate n 0 := by
  have hcan := canUpload_newProject true (show (1 : ℕ) < 2 ^ 31 by decide) "receipt"
  have hread : ReadEntries (listing n) 1 [[65]] := by
    have hdecode : readEntry (.str "QQ==".toList :: List.replicate n (.str ['1'])) = .ok [65] := by
      rfl
    refine ⟨?_, rfl, by decide⟩
    rw [listing, List.mapM_cons, hdecode]
    rfl
  have hentries : Countable defaultSettings (listing n) :=
    countable_of_length (by simp [listing]) (by simp [listing]) (by simpa [listing] using hn)
  have hproject : (⟨newProject true, Dict.empty, Dict.empty⟩ : World).db.checkProjectExists
      "project" = true := rfl
  obtain ⟨w', b, htask⟩ := handleRawUpload_succeeds defaultSettings
    (w := ⟨newProject true, Dict.empty, Dict.empty⟩) hcan hproject hentries.length (by decide) hread
  obtain ⟨size, encodings, hread', -, hcompleted⟩ :=
    handleRawUpload_ok htask hproject hcan.fresh hentries
  obtain ⟨rfl, rfl⟩ := hread.unique hread'
  have hi := hcompleted.ingested hcan.vacant
  have hcounted : (hashBlockName knownDigests (.str ['1']), (n : ℤ)) ∈
      counted (listedNames knownDigests (listing n)) := by
    rw [mem_counted, listedNames_listing]
    simp [hpos.ne']
  obtain ⟨block, hmem, hdp, -, hcount, hlookup⟩ := hi.exists_block hcounted
  refine ⟨w', b, block, htask, ?_, hmem, hdp, hcount, ?_⟩
  · have hkeys : (newProject true).encodings.map EncodingRow.encodingId = [] := rfl
    refine hcompleted.uploaded hcan.vacant (by rw [hkeys]; exact List.nodup_nil) ?_
    exact Or.inr ⟨1, _, _, rfl, hread.length_le, rfl⟩
  · have hids := hi.map_entityId hlookup
    rw [rowsOfBlock, hdp, hids]
    simp [inlineItems, packedItems, numbered, entryNames, listing, defaultSettings]

/-- The block `1` listed once. -/
theorem sameRecords_listing_one : ∃ (w' : World) (block : BlockRow) (c : ℕ)
    (records : List (ℕ × Bytes)),
    Uploaded w'.db 1 1 ∧ block ∈ w'.db.blocks ∧ block.count = c ∧
      SameRecords w'.db 1 block 0 c records := by
  obtain ⟨w', b, block, -, huploaded, hmem, hdp, hcount, hrows⟩ :=
    uploaded_listing (n := 1) (by decide) (by decide)
  have hlisted : ListedOnce w'.db block := by
    have hlength := congrArg List.length hrows
    rw [List.length_map, List.length_replicate] at hlength
    refine ⟨?_, ?_, ?_⟩
    · rintro hnil
      rw [hnil] at hlength
      cases hlength
    · rw [hcount, hlength]
    · rw [hrows]
      exact List.nodup_singleton 0
  obtain ⟨c, records, hc, hsame⟩ := (sameRecords_iff huploaded hdp 0).mpr hlisted
  exact ⟨w', block, c, records, huploaded, hmem, hc, hsame⟩

/-- The block `1` listed twice: a chunk has the encoding once, a package has it twice. -/
theorem not_sameRecords_listing_two : ∃ w' b block,
    handleRawUpload defaultSettings "project" 1 "receipt"
        (quarantined defaultSettings ⟨newProject true, Dict.empty, Dict.empty⟩ 1 "receipt"
          (listing 2)) = (w', .ok b) ∧ Uploaded w'.db 1 1 ∧ block ∈ w'.db.blocks ∧ block.dp = 1 ∧
      ∀ (c : ℕ) (records : List (ℕ × Bytes)), block.count = c →
        ¬ SameRecords w'.db 1 block 0 c records := by
  obtain ⟨w', b, block, htask, huploaded, hmem, hdp, hcount, hrows⟩ :=
    uploaded_listing (n := 2) (by decide) (by decide)
  refine ⟨w', b, block, htask, huploaded, hmem, hdp, fun c records _ hsame => ?_⟩
  obtain ⟨first, blocks, items, hingested, hitems⟩ := huploaded.ingested
  rcases hitems with ⟨hneg, -⟩ | ⟨s, encodings, names, hs, hlen, rfl⟩
  · omega
  · obtain rfl : s = 1 := by omega
    have hstored : StoredRows w'.db block.dp 1 encodings := by
      rw [hdp]
      exact storedRows_of_ingested hingested hlen huploaded.keys
    obtain ⟨-, -, hnodup⟩ := nodup_of_sameRecords hstored hsame
    have hperm := (perm_blockEntityIds w'.db block).nodup_iff.mp hnodup
    rw [hrows] at hperm
    exact absurd hperm (by decide)

end Views
end EntityService
