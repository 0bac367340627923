import EntityService.Database.Uploads
import EntityService.EncodingStorage.Packing
import EntityService.Tasks.EncodingUploading

/-! What an upload has stored once it is ready. Each path ends in a database that holds the
rows of the encodings it read. -/
namespace EntityService.Tasks
open Lib Database

variable {settings : Settings} {projectId : ProjectId} {dpId : DpId} {token : Token} {w w' : World}

/-- An upload is ready, and its items are stored in its blocks with their declared counts. -/
structure Completed (db db' : Database) (dpId : DpId) (token : Token) (count size : ℤ)
    (blocks : List (BlockName × ℤ)) (items : List Item) : Prop where
  fresh : db.FreshToken token
  keys : db'.uploadKeys = db.uploadKeys ++ [(dpId, token, count, (blocks.length : ℤ))]
  ready : ∀ r ∈ db'.uploads, r.dp = dpId → r.state = .ready
  sizes : db'.HasSize dpId size
  metadata : Int4 count ∧ Int4 size
  declared : Int4 blocks.length ∧ ∀ b ∈ blocks, Int4 b.2
  parties : db'.projects = db.projects ∧ db'.dataproviders = db.dataproviders
  stored : db'.encodings = db.encodings ++ items.map (encodingRow dpId)
  unused : ∀ item ∈ items, (dpId <<< 32) + item.1 ∉ db.encodings.map EncodingRow.encodingId
  ingested : db.Vacant dpId → db'.Ingested dpId db.nextBlockId blocks items

theorem clean_default {count : ℤ} : ∀ b ∈ [(DEFAULT_BLOCK_ID, count)], Clean b.1 := by
  intro b hb
  cases List.mem_singleton.mp hb
  intro c hc
  cases List.mem_singleton.mp hc
  decide

theorem uploadClkDataBinary_ok {gen : Generator Item} {count : ℤ} {size : ℕ} {u : Unit}
    (h : uploadClkDataBinary settings dpId gen token count size w = (w', .ok u)) :
    ∃ items, gen.mapM id = .ok items ∧
      Completed w.db w'.db dpId token count size [(DEFAULT_BLOCK_ID, count)] items := by
  obtain ⟨w1, _, hfirst, hsecond⟩ := Action.bind_eq_ok.mp h
  obtain ⟨db1, h1, rfl⟩ := transaction_eq_ok.mp hfirst
  obtain ⟨db2, h2, rfl⟩ := transaction_eq_ok.mp hsecond
  obtain ⟨dba, ha, h1⟩ := bind_eq_ok.mp h1
  obtain ⟨hsa, hfresh, -, hka, hpa, hda⟩ := insertEncodingMetadata_ok ha
  obtain ⟨hs1, hk1, -, hp1, hd1⟩ := updateEncodingMetadataSetEncodingSize_ok h1
  obtain ⟨dbb, hb, h2⟩ := bind_eq_ok.mp h2
  obtain ⟨hsb, hkb, -, hpb, hdb⟩ := updateEncodingMetadataSetEncodingSize_ok hb
  obtain ⟨dbc, hc, h2⟩ := bind_eq_ok.mp h2
  obtain ⟨hcounts, rfl⟩ := insertBlockingMetadata_eq_ok.mp hc
  obtain ⟨dbd, hd, h2⟩ := bind_eq_ok.mp h2
  obtain ⟨n, hn, hpos⟩ := settings.estimateGroupSize_natCast size
  obtain ⟨items, hitems, hadm, rfl⟩ := (storeEncodingsInDb_eq_ok hn hpos).mp hd
  cases h2
  have hcount := (insertEncodingMetadata_eq_ok.mp ha).2.1.1
  have hsize := (updateEncodingMetadataSetEncodingSize_eq_ok.mp h1).1
  have hsame := (hsa.trans hs1).trans hsb
  refine ⟨items, hitems, hfresh, ?_, ?_, ?_, ⟨hcount, hsize⟩,
    ⟨(show Int4 ((1 : ℕ) : ℤ) by decide), fun b hb => (hcounts b hb).2⟩,
    ⟨hpb.trans (hp1.trans hpa), hdb.trans (hd1.trans hda)⟩, ?_, ?_, ?_⟩
  · rw [uploadKeys_updateEncodingMetadata]
    exact hkb.trans (hk1.trans hka)
  · exact fun r hr hdp => state_updateEncodingMetadata _ dpId hr hdp
  · exact hasSize_updateEncodingMetadata _ dpId
      (hasSize_updateEncodingMetadataSetEncodingSize hb) none .ready
  · rw [← hsame.encodings]
    rfl
  · rw [← hsame.encodings]
    exact hadm.fresh
  · intro hv
    have hnames : ([(DEFAULT_BLOCK_ID, count)].map Prod.fst).Nodup := List.nodup_singleton _
    exact hv.ingested clean_default hnames hsame hadm
      (sameData_updateEncodingMetadata _ dpId none .ready)

theorem uploadClkDataBinary_error {gen : Generator Item} {count size : ℤ} {e : Error}
    (h : uploadClkDataBinary settings dpId gen token count size w = (w', .error e))
    (hfresh : w.db.FreshToken token) : ¬ w'.db.ReadyUpload token := by
  rcases Action.bind_eq_error.mp h with hfirst | ⟨w1, _, hfirst, hsecond⟩
  · obtain ⟨-, rfl⟩ := transaction_eq_error.mp hfirst
    exact hfresh.not_ready
  · obtain ⟨db1, h1, rfl⟩ := transaction_eq_ok.mp hfirst
    obtain ⟨-, rfl⟩ := transaction_eq_error.mp hsecond
    obtain ⟨dba, ha, h1⟩ := bind_eq_ok.mp h1
    obtain ⟨-, -, hpending, -⟩ := insertEncodingMetadata_ok ha
    obtain ⟨-, -, hready, -⟩ := updateEncodingMetadataSetEncodingSize_ok h1
    exact fun hr => hpending ((hready token).mp hr)

/-- The callback of a failed task marks its upload as failed. -/
theorem errback_cases {α : Type} {x : Task α} {r : Except Error α}
    (h : (x.handle fun e => do handleUploadError dpId token; Action.raise e) w = (w', r)) :
    (∃ a, x w = (w', .ok a)) ∨ ¬ w'.db.ReadyUpload token ∧ w'.db.FailedUpload token := by
  unfold Action.handle at h
  rcases hx : x w with ⟨w1, e | a⟩
  · rw [hx] at h
    have hw : w'.db = w1.db.updateUploadState dpId token .error :=
      congrArg World.db (congrArg Prod.fst h).symm
    rw [hw]
    exact Or.inr ⟨not_ready_updateUploadState w1.db dpId token,
      failed_updateUploadState w1.db dpId token⟩
  · rw [hx] at h
    cases h
    exact Or.inl ⟨a, rfl⟩

/-- A ready upload comes from a task that has ended well. -/
theorem errback_ready {α : Type} {x : Task α} {r : Except Error α}
    (h : (x.handle fun e => do handleUploadError dpId token; Action.raise e) w = (w', r))
    (hready : w'.db.ReadyUpload token) : ∃ a, x w = (w', .ok a) :=
  (errback_cases h).resolve_right fun hfailed => hfailed.1 hready

theorem getObject_ok {file : ExternalFile} {object : ExternalObject}
    (h : getObject file w = (w', .ok object)) : w.objects.get? file = some object ∧ w' = w := by
  unfold getObject at h
  rw [Action.get_bind, Action.lift_apply, Prod.mk.injEq, orRaise_eq_ok] at h
  exact ⟨h.2, h.1.symm⟩

/-- Looking for runs changes nothing. -/
theorem scheduleCheck_ok {checkDataReady b : Bool}
    (h : scheduleCheck projectId checkDataReady w = (w', .ok b)) : w' = w :=
  (congrArg Prod.fst h).symm

theorem deleteObjectStoreFiles_ok {files : List ExternalFile} {u : Unit}
    (h : deleteObjectStoreFiles files w = (w', .ok u)) : w'.db = w.db := by
  unfold deleteObjectStoreFiles at h
  rw [Action.modify_apply, Prod.mk.injEq] at h
  rw [← h.1]

theorem not_ready_of_deleteObjectStoreFiles {files : List ExternalFile} {b : Bool}
    (h : (do deleteObjectStoreFiles files; return false : Task Bool) w = (w', .ok b))
    (hfresh : w.db.FreshToken token) : ¬ w'.db.ReadyUpload token := by
  obtain ⟨w1, _, hdelete, h1⟩ := Action.bind_eq_ok.mp h
  cases h1
  rw [deleteObjectStoreFiles_ok hdelete]
  exact hfresh.not_ready

/-- What was read from an external object whose metadata declares a count and a size. -/
structure ReadObject (w : World) (file : ExternalFile) (count : ℤ) (size : ℕ)
    (encodings : List Bytes) : Prop where
  read : ∃ object, w.objects.get? file = some object ∧ object.hashCount = .ok count ∧
    object.hashSize = .ok (size : ℤ) ∧
    objectEncodings (isJson file) object.clks object.data size count.toNat = .ok encodings
  length_le : encodings.length ≤ 2 ^ 32

theorem ReadObject.unique {file : ExternalFile} {count count' : ℤ} {size size' : ℕ}
    {encodings encodings' : List Bytes} (h : ReadObject w file count size encodings)
    (h' : ReadObject w file count' size' encodings') : size = size' ∧ encodings = encodings' := by
  obtain ⟨object, hobject, hcount, hsize, hread⟩ := h.read
  obtain ⟨object', hobject', hcount', hsize', hread'⟩ := h'.read
  obtain rfl := Option.some.inj (hobject.symm.trans hobject')
  obtain rfl := Except.ok.inj (hcount.symm.trans hcount')
  obtain rfl : size = size' := Nat.cast_injective (Except.ok.inj (hsize.symm.trans hsize'))
  exact ⟨rfl, Except.ok.inj (hread.symm.trans hread')⟩

/-- A ready upload without blocks has stored what was read from its object. -/
theorem pullExternalDataEncodingsOnly_ok {file : ExternalFile} {b : Bool}
    (h : pullExternalDataEncodingsOnly settings projectId dpId file token w = (w', .ok b))
    (hfresh : w.db.FreshToken token)
    (hready : w'.db.ReadyUpload token ∨ w.db.checkProjectExists projectId = true) :
    ∃ count size encodings, ReadObject w file count size encodings ∧
      Completed w.db w'.db dpId token count size [(DEFAULT_BLOCK_ID, count)]
        (packedItems size encodings fun _ => [DEFAULT_BLOCK_ID]) := by
  unfold pullExternalDataEncodingsOnly at h
  rw [Action.get_bind] at h
  by_cases hproject : w.db.checkProjectExists projectId = true
  · rw [if_pos hproject] at h
    obtain ⟨w1, object, ho, h1⟩ := Action.bind_eq_ok.mp h
    obtain ⟨hobject, rfl⟩ := getObject_ok ho
    obtain ⟨w2, count, hc, h2⟩ := Action.bind_eq_ok.mp h1
    obtain ⟨hcount, rfl⟩ := Action.lift_ok hc
    obtain ⟨w3, size, hs, h3⟩ := Action.bind_eq_ok.mp h2
    obtain ⟨hsize, rfl⟩ := Action.lift_ok hs
    obtain ⟨w4, gen, hg, h4⟩ := Action.bind_eq_ok.mp h3
    obtain ⟨hgen, rfl⟩ := Action.lift_ok hg
    obtain ⟨w5, _, hupload, h5⟩ := Action.bind_eq_ok.mp h4
    obtain ⟨w6, _, hdelete, h6⟩ := Action.bind_eq_ok.mp h5
    obtain rfl := scheduleCheck_ok h6
    obtain ⟨s, rfl, hread⟩ := convertedStream_eq_ok hgen
    obtain ⟨items, hitems, hcompleted⟩ := uploadClkDataBinary_ok hupload
    obtain ⟨encodings, henc, hlen, rfl⟩ := hread items hitems
    rw [deleteObjectStoreFiles_ok hdelete]
    exact ⟨count, s, encodings, ⟨⟨object, hobject, hcount, hsize, henc⟩, hlen⟩, hcompleted⟩
  · rw [if_neg hproject] at h
    exact absurd (hready.resolve_right hproject) (not_ready_of_deleteObjectStoreFiles h hfresh)

/-- The names that a blocks file has for the number of an encoding. -/
def mapNames (blockMap : Dict (List Char) (List BlockName)) (i : ℕ) : List BlockName :=
  (blockMap.get? (decimal i)).getD []

theorem externalItem_eq_ok {blockMap : Dict (List Char) (List BlockName)} {size : ℕ} (i : ℕ)
    (e : Bytes) (item : Item) :
    externalItem ⟨size⟩ blockMap i e = .ok item ↔ (i < 2 ^ 32 ∧ decimal i ∈ blockMap.keys) ∧
      item = packedItem size (i, e, mapNames blockMap i) := by
  unfold externalItem packedItem mapNames
  simp only [bind_eq_ok, BitPacking.pack_eq_ok, orRaise_eq_ok, pure_eq_ok, Except.ok.injEq,
    Dict.mem_keys_iff]
  constructor
  · rintro ⟨_, ⟨hid, rfl⟩, names, hnames, rfl⟩
    exact ⟨⟨hid, names, hnames⟩, by rw [hnames, Option.getD_some]⟩
  · rintro ⟨⟨hid, names, hnames⟩, rfl⟩
    exact ⟨_, ⟨hid, rfl⟩, names, hnames, by rw [hnames, Option.getD_some]⟩

/-- The items of an object with blocks are the encodings that are read from it, with the names
that the blocks file has for their numbers. -/
theorem externalEncodings_iff {json : Bool} {object : ExternalObject} {size : ℕ} {count : ℤ}
    {blockMap : Dict (List Char) (List BlockName)} {items : List Item} :
    (externalEncodings json object size count blockMap).mapM id = .ok items ↔
      ∃ encodings, objectEncodings json object.clks object.data size count.toNat = .ok encodings ∧
        encodings.length ≤ 2 ^ 32 ∧ (∀ i < encodings.length, decimal i ∈ blockMap.keys) ∧
        items = packedItems size encodings (mapNames blockMap) := by
  have hsplit : ∀ encodings : List Bytes,
      (∀ p ∈ encodings.zipIdx, p.2 < 2 ^ 32 ∧ decimal p.2 ∈ blockMap.keys) ↔
        encodings.length ≤ 2 ^ 32 ∧ ∀ i < encodings.length, decimal i ∈ blockMap.keys := by
    intro encodings
    rw [← forall_zipIdx_lt_iff encodings]
    constructor
    · intro hall
      refine ⟨fun p hp => (hall p hp).1, fun i hi => ?_⟩
      exact (hall (encodings[i], i)
        (List.mem_zipIdx_iff_getElem?.mpr (List.getElem?_eq_getElem hi))).2
    · rintro ⟨hlt, hkeys⟩ p hp
      exact ⟨hlt p hp, hkeys p.2 (List.getElem?_eq_some_iff.mp
        (List.mem_zipIdx_iff_getElem?.mp hp)).1⟩
  unfold externalEncodings
  rw [binaryFormat_natCast]
  simp only [Int.toNat_natCast]
  cases json with
  | true =>
    rw [if_pos rfl, mapM_streamItems_eq_ok externalItem_eq_ok]
    refine exists_congr fun encodings => and_congr_right fun _ => ?_
    rw [hsplit, and_assoc, packedItems_eq]
  | false =>
    rw [if_neg (by decide), mapM_pieceItems_eq_ok externalItem_eq_ok, hsplit, and_assoc,
      ← packedItems_eq size _ (mapNames blockMap)]
    constructor
    · rintro ⟨hlen, hkeys, rfl⟩
      exact ⟨_, rfl, hlen, hkeys, rfl⟩
    · rintro ⟨encodings, hread, hlen, hkeys, rfl⟩
      cases hread
      exact ⟨hlen, hkeys, rfl⟩

/-- Nothing is read in a negative size. -/
theorem externalEncodings_eq_ok {json : Bool} {object : ExternalObject} {size count : ℤ}
    {blockMap : Dict (List Char) (List BlockName)} {items : List Item}
    (h : (externalEncodings json object size count blockMap).mapM id = .ok items) :
    ∃ (s : ℕ) (encodings : List Bytes), size = s ∧
      objectEncodings json object.clks object.data s count.toNat = .ok encodings ∧
      encodings.length ≤ 2 ^ 32 ∧ (∀ i < encodings.length, decimal i ∈ blockMap.keys) ∧
      items = packedItems s encodings (mapNames blockMap) := by
  cases hf : binaryFormat size with
  | error e =>
    unfold externalEncodings at h
    rw [hf] at h
    cases h
  | ok f =>
    obtain ⟨s⟩ := f
    obtain rfl := binaryFormat_eq_ok.mp hf
    obtain ⟨encodings, hread, hlen, hkeys, rfl⟩ := externalEncodings_iff.mp h
    exact ⟨s, encodings, rfl, hread, hlen, hkeys, rfl⟩

def hashedBlocks (settings : Settings) (pairs : List (List Char × List JsonScalar)) :
    List (List Char × List BlockName) :=
  pairs.map fun p => (p.1, p.2.map (hashBlockName settings.blake2b))

theorem mem_hashedNames {pairs : List (List Char × List JsonScalar)} {name : BlockName}
    (h : name ∈ (hashedBlocks settings pairs).flatMap Prod.snd) :
    ∃ scalar, name = hashBlockName settings.blake2b scalar := by
  obtain ⟨p, hp, hname⟩ := List.mem_flatMap.mp h
  obtain ⟨q, -, rfl⟩ := List.mem_map.mp hp
  obtain ⟨scalar, -, rfl⟩ := List.mem_map.mp hname
  exact ⟨scalar, rfl⟩

/-- The names that are kept for an encoding are among those of the blocks file. -/
theorem mem_of_mem_mapNames {hashed : List (List Char × List BlockName)} {i : ℕ} {name : BlockName}
    (h : name ∈ mapNames (Dict.ofList hashed) i) : name ∈ hashed.flatMap Prod.snd := by
  unfold mapNames at h
  cases hget : (Dict.ofList hashed).get? (decimal i) with
  | none =>
    rw [hget] at h
    cases h
  | some names =>
    rw [hget] at h
    exact List.mem_flatMap.mpr ⟨_, Dict.mem_of_get?_ofList hget, h⟩

theorem clean_hashBlockName (blake2b : Blake2b) (name : JsonScalar) :
    Clean (hashBlockName blake2b name) := by
  intro c hc
  have hall : "0123456789abcdef".toList.all (fun c => !c.isWhitespace) = true := by decide
  simpa using List.all_eq_true.mp hall c (blake2b.hex _ c hc)

/-- The counts of blocks as they are inserted. -/
def counted (names : List BlockName) : List (BlockName × ℤ) :=
  (Dict.tally names).entries.map fun b => (b.1, (b.2 : ℤ))

theorem map_fst_counted (names : List BlockName) :
    (counted names).map Prod.fst = (Dict.tally names).keys := by
  unfold counted Dict.keys
  rw [List.map_map]
  rfl

theorem length_counted (names : List BlockName) :
    (counted names).length = (Dict.tally names).keys.length := by
  rw [← map_fst_counted, List.length_map]

theorem clean_counted {names : List BlockName} (h : ∀ name ∈ names, Clean name) :
    ∀ b ∈ counted names, Clean b.1 := by
  intro b hb
  have hm : b.1 ∈ (counted names).map Prod.fst := List.mem_map_of_mem hb
  rw [map_fst_counted, Dict.mem_keys_tally] at hm
  exact h b.1 hm

theorem mem_counted {names : List BlockName} {b : BlockName × ℤ} :
    b ∈ counted names ↔ b.1 ∈ names ∧ b.2 = (names.count b.1 : ℤ) := by
  obtain ⟨name, n⟩ := b
  unfold counted
  rw [List.mem_map]
  constructor
  · rintro ⟨⟨name', n'⟩, hm, he⟩
    obtain ⟨rfl, rfl⟩ := Prod.mk.inj he
    obtain ⟨hmem, hcount⟩ := Dict.mem_entries_tally.mp hm
    exact ⟨hmem, congrArg Nat.cast hcount.symm⟩
  · rintro ⟨hmem, hn⟩
    exact ⟨(name, names.count name), Dict.mem_entries_tally.mpr ⟨hmem, rfl⟩,
      Prod.ext rfl hn.symm⟩

/-- The one transaction of an upload with blocks. -/
theorem storeExternalData_ok {encodings : Generator Item} {names : List BlockName}
    {size count : ℤ} {db db' : Database} (hclean : ∀ name ∈ names, Clean name)
    (h : storeExternalData settings dpId token encodings (Dict.tally names) size count db =
      .ok db') :
    names ≠ [] ∧ ∃ n items, settings.estimateGroupSize size = .ok n ∧
      (1 ≤ n → encodings.mapM id = .ok items) ∧ (n ≤ 0 → items = []) ∧
      Completed db db' dpId token count size (counted names) items := by
  obtain ⟨dba, ha, h⟩ := bind_eq_ok.mp h
  obtain ⟨hsa, hfresh, -, hka, hpa, hda⟩ := insertEncodingMetadata_ok ha
  obtain ⟨dbb, hb, h⟩ := bind_eq_ok.mp h
  obtain ⟨hsb, hkb, -, hpb, hdb⟩ := updateEncodingMetadataSetEncodingSize_ok hb
  obtain ⟨dbc, hc, h⟩ := bind_eq_ok.mp h
  obtain ⟨hcounts, rfl⟩ := insertBlockingMetadata_eq_ok.mp hc
  obtain ⟨dbd, hd, h⟩ := bind_eq_ok.mp h
  obtain ⟨hse, hne, hu, hpe, hde⟩ := updateBlocksState_ok h
  obtain ⟨n, items, hn, hitems, hnone, hadm, rfl⟩ := storeEncodingsInDb_ok hd
  have hkeys : db'.uploadKeys = (dbb.updateEncodingMetadata none dpId .ready).uploadKeys :=
    congrArg (List.map _) hu
  have hcount := (insertEncodingMetadata_eq_ok.mp ha).2.1.1
  have hsize := (updateEncodingMetadataSetEncodingSize_eq_ok.mp hb).1
  have hsame := hsa.trans hsb
  have hblocks := (insertEncodingMetadata_eq_ok.mp ha).2.1.2
  rw [← length_counted] at hblocks
  refine ⟨?_, n, items, hn, hitems, hnone, hfresh, ?_, ?_, ?_, ⟨hcount, hsize⟩,
    ⟨hblocks, fun b hb => (hcounts b hb).2⟩,
    ⟨hpe.trans (hpb.trans hpa), hde.trans (hdb.trans hda)⟩, ?_, ?_, ?_⟩
  · rintro rfl
    exact hne rfl
  · rw [hkeys, uploadKeys_updateEncodingMetadata, hkb, hka, length_counted]
  · intro r hr hdp
    rw [hu] at hr
    exact state_updateEncodingMetadata _ dpId hr hdp
  · intro r hr hdp
    rw [hu] at hr
    exact hasSize_updateEncodingMetadata _ dpId
      (hasSize_updateEncodingMetadataSetEncodingSize hb) none .ready r hr hdp
  · rw [hse.encodings, ← hsame.encodings]
    rfl
  · rw [← hsame.encodings]
    exact hadm.fresh
  · intro hv
    have hnames : ((counted names).map Prod.fst).Nodup := by
      rw [map_fst_counted]
      exact (Dict.tally names).nodup_keys
    exact hv.ingested (clean_counted hclean) hnames hsame hadm
      ((sameData_updateEncodingMetadata _ dpId none .ready).trans hse)

/-- What an upload with blocks read: the pairs of its blocks file, and the metadata of its
encodings, which has to declare as many of them as the blocks file has keys. -/
structure ReadBlocks (settings : Settings) (w : World) (encodingFile blocksFile : ExternalFile)
    (pairs : List (List Char × List JsonScalar)) (object : ExternalObject) (count size : ℤ) :
    Prop where
  blocksObject : ∃ blocksObject, w.objects.get? blocksFile = some blocksObject ∧
    blocksObject.blocks.mapM id = .ok pairs
  encodingObject : w.objects.get? encodingFile = some object
  hashCount : object.hashCount = .ok count
  hashSize : object.hashSize = .ok size
  count_eq : count = (Dict.ofList (hashedBlocks settings pairs)).keys.length

/-- A ready upload with blocks has stored the items that were asked for. -/
theorem pullExternalData_ok {encodingFile blocksFile : ExternalFile} {b : Bool}
    (h : pullExternalData settings projectId dpId encodingFile blocksFile token w = (w', .ok b))
    (hfresh : w.db.FreshToken token)
    (hready : w'.db.ReadyUpload token ∨ w.db.checkProjectExists projectId = true) :
    ∃ pairs object count size n items,
      ReadBlocks settings w encodingFile blocksFile pairs object count size ∧
      (hashedBlocks settings pairs).flatMap Prod.snd ≠ [] ∧
      settings.estimateGroupSize size = .ok n ∧
      (1 ≤ n → (externalEncodings (isJson encodingFile) object size count
        (Dict.ofList (hashedBlocks settings pairs))).mapM id = .ok items) ∧
      (n ≤ 0 → items = []) ∧
      Completed w.db w'.db dpId token count size
        (counted ((hashedBlocks settings pairs).flatMap Prod.snd)) items := by
  unfold pullExternalData at h
  rw [Action.get_bind] at h
  by_cases hproject : w.db.checkProjectExists projectId = true
  · rw [if_pos hproject] at h
    obtain ⟨w1, blocksObject, hb, h1⟩ := Action.bind_eq_ok.mp h
    obtain ⟨hblocksObject, rfl⟩ := getObject_ok hb
    obtain ⟨w2, pairs, hp, h2⟩ := Action.bind_eq_ok.mp h1
    obtain ⟨hpairs, rfl⟩ := Action.lift_ok hp
    obtain ⟨w3, object, ho, h3⟩ := Action.bind_eq_ok.mp h2
    obtain ⟨hobject, rfl⟩ := getObject_ok ho
    obtain ⟨w4, count, hc, h4⟩ := Action.bind_eq_ok.mp h3
    obtain ⟨hcount, rfl⟩ := Action.lift_ok hc
    obtain ⟨w5, size, hs, h5⟩ := Action.bind_eq_ok.mp h4
    obtain ⟨hsize, rfl⟩ := Action.lift_ok hs
    obtain ⟨w6, _, ha, h6⟩ := Action.bind_eq_ok.mp h5
    obtain ⟨hassert, rfl⟩ := Action.lift_ok ha
    obtain ⟨w7, _, hstore, h7⟩ := Action.bind_eq_ok.mp h6
    obtain ⟨w8, _, hdelete, h8⟩ := Action.bind_eq_ok.mp h7
    obtain rfl := scheduleCheck_ok h8
    obtain ⟨db, hdb, rfl⟩ := transaction_eq_ok.mp hstore
    have hclean : ∀ name ∈ (hashedBlocks settings pairs).flatMap Prod.snd, Clean name := by
      intro name hname
      obtain ⟨scalar, rfl⟩ := mem_hashedNames hname
      exact clean_hashBlockName settings.blake2b scalar
    obtain ⟨hne, n, items, hn, hitems, hnone, hcompleted⟩ := storeExternalData_ok hclean hdb
    rw [deleteObjectStoreFiles_ok hdelete]
    exact ⟨pairs, object, count, size, n, items,
      ⟨⟨blocksObject, hblocksObject, hpairs⟩, hobject, hcount, hsize, ensure_eq_ok.mp hassert⟩,
      hne, hn, hitems, hnone, hcompleted⟩
  · rw [if_neg hproject] at h
    exact absurd (hready.resolve_right hproject) (not_ready_of_deleteObjectStoreFiles h hfresh)

end EntityService.Tasks
