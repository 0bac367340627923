import EntityService.Views.Inline

/-! An inline upload in the `clknblocks` format stores exactly what was uploaded, and the
metadata that the view computed agrees with it. -/
namespace EntityService.Views
open Lib Database Tasks

/-- An entry of a `clknblocks` list: an encoding in base64 and the ids of its blocks. -/
structure InlineEntry where
  b64Encoding : List Char
  encoding : Bytes
  blocks : List JsonScalar
  decodes : deserializeBytes b64Encoding = .ok encoding

def InlineEntry.json (e : InlineEntry) : List JsonScalar := .str e.b64Encoding :: e.blocks

/-- All block ids that the entries list, as texts. -/
def listedBlocks (entries : List InlineEntry) : List (List Char) :=
  (entries.flatMap InlineEntry.blocks).map JsonScalar.text

def packedRow (size : ℕ) (dpId : DpId) (entityId : ℕ) (encoding : Bytes) :
    Except Error EncodingRow := do
  let packed ← (⟨size⟩ : BitPacking).pack entityId encoding
  return ⟨dpId * 2 ^ 32 + entityId, packed, dpId⟩

/-- The number of a block id among the blocks of a provider. -/
def blockIdOf (blake2b : Blake2b) (db : Database) (dpId : DpId) (block : JsonScalar) :
    Option BlockId := (db.blockLookup dpId).get? (hashBlockName blake2b block)

/-- The rows of a provider are those of the uploaded entries, and its metadata counts them. -/
structure StoresUpload (blake2b : Blake2b) (db : Database) (dpId : DpId) (token : Token)
    (size : ℕ) (entries : List InlineEntry) : Prop where
  encodings : (entries.zipIdx.mapM fun e => packedRow size dpId e.2 e.1.encoding) =
    .ok (db.encodings.filter (fun r => r.dp = dpId))
  lookups : ∀ e ∈ entries, ∀ block ∈ e.blocks, (blockIdOf blake2b db dpId block).isSome
  encodingblocks : db.encodingblocks.filter (fun r => r.dp = dpId) =
    entries.zipIdx.flatMap fun e => e.1.blocks.map fun block =>
      ⟨dpId, e.2, dpId * 2 ^ 32 + e.2, (blockIdOf blake2b db dpId block).getD 0⟩
  distinct : ∀ block ∈ entries.flatMap InlineEntry.blocks,
    ∀ block' ∈ entries.flatMap InlineEntry.blocks,
      blockIdOf blake2b db dpId block = blockIdOf blake2b db dpId block' → block.text = block'.text
  counts : ∀ r ∈ db.blocks, r.dp = dpId → r.count =
    (db.encodingblocks.countP (fun e => e.dp = dpId ∧ e.blockId = r.blockId) : ℤ)
  upload : ∃ r, db.uploads.filter (fun r => r.dp = dpId) = [r] ∧ r.token = token ∧
    r.count = entries.length ∧ r.blockCount = (db.blocks.filter (fun b => b.dp = dpId)).length ∧
    r.blockCount = (listedBlocks entries).dedup.length
  small : ∀ r ∈ db.encodings, r.dp = dpId → r.encodingId < 2 ^ 63
  own : ∀ r ∈ db.encodings, r.dp = dpId → ∀ r' ∈ db.encodings, r'.dp ≠ dpId →
    r'.encodingId ≠ r.encodingId
  disjoint : ∀ r ∈ db.encodings, r.dp = dpId → ∀ dpId' ≠ dpId, ∀ i < 2 ^ 32,
    computeEncodingIds [i] dpId' ≠ [r.encodingId]

section Entries
variable {blake2b : Blake2b} {entries : List InlineEntry}

theorem listedNames_json (blake2b : Blake2b) (entries : List InlineEntry) :
    listedNames blake2b (entries.map InlineEntry.json) =
      (entries.flatMap InlineEntry.blocks).map (hashBlockName blake2b) := by
  unfold listedNames
  rw [List.flatMap_map, List.map_flatMap]
  rfl

theorem entryNames_json (blake2b : Blake2b) {e : InlineEntry} {i : ℕ}
    (h : (e, i) ∈ entries.zipIdx) :
    entryNames blake2b (entries.map InlineEntry.json) i = e.blocks.map (hashBlockName blake2b) := by
  have hget := List.mem_zipIdx_iff_getElem?.mp h
  simp only at hget
  unfold entryNames
  rw [List.getElem?_map, hget]
  rfl

theorem readEntries_json {size : ℕ} {encodings : List Bytes}
    (h : ReadEntries (entries.map InlineEntry.json) size encodings) :
    encodings = entries.map InlineEntry.encoding := by
  have hread : (entries.map InlineEntry.json).mapM readEntry =
      .ok (entries.map InlineEntry.encoding) := by
    rw [List.mapM_map]
    exact mapM_eq_pure_map fun e _ => e.decodes
  exact Except.ok.inj (h.read.symm.trans hread)

theorem packedRow_eq_ok {size : ℕ} {dpId : DpId} (e : InlineEntry × ℕ) (row : EncodingRow) :
    packedRow size dpId e.2 e.1.encoding = .ok row ↔ e.2 < 2 ^ 32 ∧
      row = encodingRow dpId (packedItem size (e.2, e.1.encoding, [])) := by
  unfold packedRow encodingRow packedItem
  simp only [bind_eq_ok, BitPacking.pack_eq_ok, pure_eq_ok, Except.ok.injEq, Nat.shiftLeft_eq]
  constructor
  · rintro ⟨_, ⟨hid, rfl⟩, rfl⟩
    exact ⟨hid, rfl⟩
  · rintro ⟨hid, rfl⟩
    exact ⟨_, ⟨hid, rfl⟩, rfl⟩

/-- Block ids without collisions have as many names as there are texts. -/
theorem length_counted_json (hcollision : ∀ block ∈ entries.flatMap InlineEntry.blocks,
    ∀ block' ∈ entries.flatMap InlineEntry.blocks,
      hashBlockName blake2b block = hashBlockName blake2b block' → block.text = block'.text) :
    (counted ((entries.flatMap InlineEntry.blocks).map (hashBlockName blake2b))).length =
      (listedBlocks entries).dedup.length := by
  have hkeys : ((Dict.tally ((entries.flatMap InlineEntry.blocks).map
      (hashBlockName blake2b))).keys).toFinset =
      ((listedBlocks entries).toFinset).image blake2b.hexdigest := by
    ext name
    simp [Dict.mem_keys_tally, listedBlocks, hashBlockName]
  have hinj : Set.InjOn blake2b.hexdigest (listedBlocks entries).toFinset := by
    intro s hs s' hs' he
    simp only [List.coe_toFinset, Set.mem_ofPred_eq, listedBlocks, List.mem_map] at hs hs'
    obtain ⟨block, hblock, rfl⟩ := hs
    obtain ⟨block', hblock', rfl⟩ := hs'
    exact hcollision block hblock block' hblock' he
  rw [length_counted, ← List.toFinset_card_of_nodup (Dict.nodup_keys _), hkeys,
    Finset.card_image_of_injOn hinj, List.card_toFinset]

end Entries

section Stored
variable {settings : Settings} {projectId : ProjectId} {dpId : DpId} {token : Token}
  {db db' : Database} {entries : List InlineEntry} {size : ℕ}

/-- The items of entries in the order in which they were uploaded. -/
def entryItems (blake2b : Blake2b) (entries : List InlineEntry) (size : ℕ) : List Item :=
  entries.zipIdx.map fun e => packedItem size
    (e.2, e.1.encoding, e.1.blocks.map (hashBlockName blake2b))

theorem inlineItems_json (settings : Settings) (entries : List InlineEntry) (size : ℕ) :
    inlineItems settings (entries.map InlineEntry.json) size (entries.map InlineEntry.encoding) =
      entryItems settings.blake2b entries size := by
  unfold inlineItems entryItems
  rw [packedItems_eq, List.zipIdx_map, List.map_map]
  refine List.map_congr_left fun p hp => ?_
  have hnames := entryNames_json settings.blake2b hp
  simp only [Function.comp_apply, Prod.map_fst, Prod.map_snd, id, hnames]

theorem mapM_packedRow (hlen : entries.length ≤ 2 ^ 32) (dpId : DpId) :
    (entries.zipIdx.mapM fun e => packedRow size dpId e.2 e.1.encoding) =
      .ok ((entryItems settings.blake2b entries size).map (encodingRow dpId)) := by
  refine (mapM_eq_ok_map packedRow_eq_ok).mpr ⟨fun e he => ?_, ?_⟩
  · have hlt := (List.getElem?_eq_some_iff.mp (List.mem_zipIdx_iff_getElem?.mp he)).1
    omega
  · unfold entryItems
    rw [List.map_map]
    rfl

theorem flatMap_entryItems (blake2b : Blake2b) (entries : List InlineEntry) (size : ℕ) :
    (entryItems blake2b entries size).flatMap (fun t => t.2.2) =
      (entries.flatMap InlineEntry.blocks).map (hashBlockName blake2b) := by
  have hfst := congrArg (List.flatMap fun e => e.blocks.map (hashBlockName blake2b))
    (List.zipIdx_map_fst 0 entries)
  rw [List.flatMap_map] at hfst
  unfold entryItems
  rw [List.flatMap_map, List.map_flatMap, ← hfst]
  rfl

theorem flatMap_blockRows (blake2b : Blake2b) (lookup : Dict BlockName BlockId) :
    (entryItems blake2b entries size).flatMap (blockRows lookup dpId) =
      entries.zipIdx.flatMap fun e => e.1.blocks.map fun block =>
        ⟨dpId, e.2, dpId * 2 ^ 32 + e.2, (lookup.get? (hashBlockName blake2b block)).getD 0⟩ := by
  unfold entryItems blockRows
  rw [List.flatMap_map]
  simp only [packedItem, List.map_map, Nat.shiftLeft_eq]
  rfl

theorem blockIdOf_isSome {first : BlockId}
    (h : db.Ingested dpId first (counted ((entries.flatMap InlineEntry.blocks).map
      (hashBlockName settings.blake2b))) (entryItems settings.blake2b entries size))
    {block : JsonScalar} (hblock : block ∈ entries.flatMap InlineEntry.blocks) :
    (blockIdOf settings.blake2b db dpId block).isSome := by
  unfold blockIdOf
  rw [Dict.get?_isSome, h.mem_keys_blockLookup, map_fst_counted, Dict.mem_keys_tally]
  exact List.mem_map_of_mem hblock

theorem storesUpload_of_completed
    (h : Completed db db' dpId token entries.length size
      (counted ((entries.flatMap InlineEntry.blocks).map (hashBlockName settings.blake2b)))
      (entryItems settings.blake2b entries size))
    (hlen : entries.length ≤ 2 ^ 32) (hvacant : db.Vacant dpId)
    (huploads : ∀ r ∈ db.uploads, r.dp ≠ dpId)
    (hcollision : ∀ block ∈ entries.flatMap InlineEntry.blocks,
      ∀ block' ∈ entries.flatMap InlineEntry.blocks,
        hashBlockName settings.blake2b block = hashBlockName settings.blake2b block' →
          block.text = block'.text) :
    StoresUpload settings.blake2b db' dpId token size entries := by
  have hi := h.ingested hvacant
  have hitem : ∀ r ∈ db'.encodings, r.dp = dpId →
      ∃ item ∈ entryItems settings.blake2b entries size, encodingRow dpId item = r := by
    intro r hr hdp
    have hmem : r ∈ db'.encodings.filter (fun r => r.dp = dpId) :=
      List.mem_filter.mpr ⟨hr, decide_eq_true hdp⟩
    rw [hi.encodings] at hmem
    exact List.mem_map.mp hmem
  have hlt : ∀ item ∈ entryItems settings.blake2b entries size, item.1 < 2 ^ 32 := by
    intro item hitem
    obtain ⟨e, he, rfl⟩ := List.mem_map.mp hitem
    have hget := (List.getElem?_eq_some_iff.mp (List.mem_zipIdx_iff_getElem?.mp he)).1
    rw [packedItem_fst]
    omega
  refine ⟨?_, ?_, ?_, ?_, ?_, ?_, ?_, ?_, ?_⟩
  · rw [hi.encodings]
    exact mapM_packedRow hlen dpId
  · intro e he block hblock
    exact blockIdOf_isSome hi (List.mem_flatMap.mpr ⟨e, he, hblock⟩)
  · rw [hi.encodingblocks]
    exact flatMap_blockRows settings.blake2b _
  · intro block hblock block' hblock' he
    obtain ⟨id, hid⟩ := Option.isSome_iff_exists.mp (blockIdOf_isSome hi hblock)
    exact hcollision block hblock block' hblock' (hi.blockLookup_inj hid (he.symm.trans hid))
  · refine hi.counts_iff.mpr fun b hb => ?_
    rw [flatMap_entryItems]
    exact (mem_counted.mp hb).2
  · obtain ⟨r, hr, htoken, hcount, hblocks⟩ := h.filter_uploads huploads
    have hlength := congrArg List.length hi.declared
    simp only [List.length_map, List.length_zipIdx] at hlength
    refine ⟨r, hr, htoken, hcount, ?_, ?_⟩
    · rw [hblocks, hlength]
    · rw [hblocks, length_counted_json hcollision]
  · intro r hr hdp
    obtain ⟨item, hmem, rfl⟩ := hitem r hr hdp
    exact hi.small item hmem
  · intro r hr hdp r' hr' hdp' he
    obtain ⟨item, hmem, rfl⟩ := hitem r hr hdp
    rw [h.stored] at hr'
    rcases List.mem_append.mp hr' with hold | hnew
    · exact h.unused item hmem (List.mem_map.mpr ⟨r', hold, he⟩)
    · obtain ⟨item', -, rfl⟩ := List.mem_map.mp hnew
      exact hdp' rfl
  · intro r hr hdp dpId' hne i hi' he
    obtain ⟨item, hmem, rfl⟩ := hitem r hr hdp
    have hids : (dpId' <<< 32) + i = (dpId <<< 32) + item.1 := List.singleton_inj.mp he
    have hdiv := congrArg (· / 2 ^ 32) hids
    simp only [encodingId_div hi', encodingId_div (hlt item hmem)] at hdiv
    exact hne hdiv

variable {w w1 : World} {clkJson : ClkJson} {usesBlocking : Bool} {job : Job}

theorem handleEncodingUploadJson_clknblocks (hencodings : clkJson.encodings = none)
    (hclknblocks : clkJson.clknblocks = some (entries.map InlineEntry.json))
    (h : handleEncodingUploadJson settings projectId dpId clkJson token usesBlocking w =
      (w1, .ok job)) :
    w.db.FreshToken token ∧ Countable settings (entries.map InlineEntry.json) ∧
      w1 = quarantined settings w dpId token (entries.map InlineEntry.json) := by
  have hinline : clkJson.externalEncodings = none := by
    unfold ClkJson.externalEncodings
    rw [hencodings]
    rfl
  obtain ⟨habort, entries', hentries, ⟨hfresh, hcountable⟩, -, rfl⟩ :=
    (handleEncodingUploadJson_inline hinline).mp h
  cases usesBlocking with
  | false =>
    unfold abortIfInconsistentUpload at habort
    simp [hclknblocks] at habort
  | true =>
    unfold inlineEntries at hentries
    simp only [hencodings, hclknblocks, bind_eq_ok, ensure_eq_ok, orRaise_eq_ok, pure_eq_ok,
      Option.some.injEq, Except.ok.injEq, exists_and_left, exists_eq_left',
      exists_const] at hentries
    obtain ⟨-, rfl⟩ := hentries
    exact ⟨hfresh, hcountable, rfl⟩

/-- An inline upload with blocks that ends well has stored exactly its entries, and the task
does end well when the entries come from a provider whose number and whose encodings fit. -/
theorem clknblocks_upload_stores (hvacant : w.db.Vacant dpId)
    (huploads : ∀ r ∈ w.db.uploads, r.dp ≠ dpId)
    (hproject : w.db.checkProjectExists projectId = true)
    (hsize : ∀ e ∈ entries, e.encoding.length = size)
    (hcollision : ∀ block ∈ entries.flatMap InlineEntry.blocks,
      ∀ block' ∈ entries.flatMap InlineEntry.blocks,
        hashBlockName settings.blake2b block = hashBlockName settings.blake2b block' →
          block.text = block'.text)
    (hencodings : clkJson.encodings = none)
    (hclknblocks : clkJson.clknblocks = some (entries.map InlineEntry.json))
    (hview : handleEncodingUploadJson settings projectId dpId clkJson token usesBlocking w =
      (w1, .ok job)) :
    (∀ w2 b, handleRawUpload settings projectId dpId token w1 = (w2, .ok b) →
      StoresUpload settings.blake2b w2.db dpId token size entries) ∧
    (entries ≠ [] → dpId < 2 ^ 31 → w.db.OwnIds → Int4 size →
      ∃ w2 b, handleRawUpload settings projectId dpId token w1 = (w2, .ok b)) := by
  obtain ⟨hfresh, hcountable, rfl⟩ :=
    handleEncodingUploadJson_clknblocks hencodings hclknblocks hview
  have hlength := hcountable.length
  constructor
  · intro w2 b htask
    obtain ⟨size', encodings, hread, -, hcompleted⟩ :=
      handleRawUpload_ok htask hproject hfresh hcountable
    obtain rfl := readEntries_json hread
    have hhead : size' = size := by
      have hsome := hread.size_eq
      rw [List.head?_map, Option.map_map, Option.map_eq_some_iff] at hsome
      obtain ⟨e, he, rfl⟩ := hsome
      exact hsize e (List.mem_of_mem_head? he)
    subst hhead
    rw [listedNames_json, inlineItems_json, List.length_map] at hcompleted
    rw [List.length_map] at hlength
    unfold Int4 at hlength
    exact storesUpload_of_completed hcompleted (by omega) hvacant huploads hcollision
  · intro hne hdp hown hint
    have hread : ReadEntries (entries.map InlineEntry.json) size
        (entries.map InlineEntry.encoding) := by
      refine ⟨?_, ?_, ?_⟩
      · rw [List.mapM_map]
        exact mapM_eq_pure_map fun e _ => e.decodes
      · obtain ⟨e, rest, rfl⟩ := List.exists_cons_of_ne_nil hne
        simpa using hsize e List.mem_cons_self
      · rw [List.length_map] at hlength ⊢
        unfold Int4 at hlength
        omega
    exact handleRawUpload_succeeds settings ⟨hvacant, hfresh, hown, hdp⟩ hproject hlength hint hread

end Stored

/-- Two encodings in the blocks `0` and `1`, the second of them listed twice. -/
def twoEntries : List InlineEntry :=
  [⟨"QQ==".toList, [65], [.str ['0'], .int 1, .str ['1']], by decide⟩,
    ⟨"Qg==".toList, [66], [.str ['0']], by decide⟩]

theorem clknblocks_upload_stores_twoEntries : ∃ w2 b,
    handleRawUpload defaultSettings "project" 1 "receipt"
      (quarantined defaultSettings ⟨newProject true, Dict.empty, Dict.empty⟩ 1 "receipt"
        (twoEntries.map InlineEntry.json)) = (w2, .ok b) ∧
      StoresUpload knownDigests w2.db 1 "receipt" 1 twoEntries := by
  have hcan := canUpload_newProject true (show (1 : ℕ) < 2 ^ 31 by decide) "receipt"
  have hview : handleEncodingUploadJson defaultSettings "project" 1
      ⟨none, some (twoEntries.map InlineEntry.json), none, none⟩ "receipt" true
      ⟨newProject true, Dict.empty, Dict.empty⟩ =
      (quarantined defaultSettings ⟨newProject true, Dict.empty, Dict.empty⟩ 1 "receipt"
        (twoEntries.map InlineEntry.json), .ok .handleRawUpload) := by
    refine (handleEncodingUploadJson_inline rfl).mpr ⟨rfl, _, rfl, ⟨hcan.fresh, ?_⟩, rfl, rfl⟩
    exact countable_of_length (by decide) (by decide) (by decide)
  obtain ⟨hstores, hsucceeds⟩ := clknblocks_upload_stores hcan.vacant (by simp [newProject])
    (by rfl) (show ∀ e ∈ twoEntries, e.encoding.length = 1 by decide) (by decide) rfl rfl hview
  obtain ⟨w2, b, htask⟩ := hsucceeds (by decide) hcan.dp_lt hcan.own (by decide)
  exact ⟨w2, b, htask, hstores w2 b htask⟩

end EntityService.Views
