import EntityService.Tasks.Ingestion

/-! Uploads that succeed: when a provider without data uploads encodings that fit, no
constraint of the database is violated and no block lookup fails. -/
namespace EntityService.Database
open Lib

/-- The number of an encoding names the provider that owns it. -/
def OwnIds (db : Database) : Prop := ∀ r ∈ db.encodings, r.encodingId / 2 ^ 32 = r.dp

theorem encodingId_div {dpId i : ℕ} (hi : i < 2 ^ 32) : ((dpId <<< 32) + i) / 2 ^ 32 = dpId := by
  rw [Nat.shiftLeft_eq]
  omega

theorem encodingId_lt {dpId i : ℕ} (hdp : dpId < 2 ^ 31) (hi : i < 2 ^ 32) :
    (dpId <<< 32) + i < 2 ^ 63 := by
  rw [Nat.shiftLeft_eq]
  omega

/-- Numbered items of a provider without data are let in, and none of their lookups fails. -/
theorem Vacant.admits {db : Database} {dpId : DpId} (hv : db.Vacant dpId) (hown : db.OwnIds)
    (hdp : dpId < 2 ^ 31) {blocks : List (BlockName × ℤ)} (hclean : ∀ b ∈ blocks, Clean b.1)
    (hnames : (blocks.map Prod.fst).Nodup) {items : List Item}
    (hids : (items.map Prod.fst).Nodup) (hlt : ∀ item ∈ items, item.1 < 2 ^ 31)
    (hknown : ∀ item ∈ items, ∀ name ∈ item.2.2, name ∈ blocks.map Prod.fst) :
    (db.addBlocks dpId blocks).Admits dpId items where
  nodup := by
    have hcomp : items.map (fun item => (dpId <<< 32) + item.1) =
        (items.map Prod.fst).map fun i => (dpId <<< 32) + i := by
      rw [List.map_map]
      rfl
    rw [hcomp]
    exact hids.map fun a b h => Nat.add_left_cancel h
  fresh item hitem hm := by
    obtain ⟨r, hr, he⟩ := List.mem_map.mp hm
    have hi := hlt item hitem
    have hdiv := hown r hr
    rw [he, encodingId_div (by omega)] at hdiv
    exact hv.encodings r hr hdiv.symm
  small item hitem := by
    have hi := hlt item hitem
    exact encodingId_lt hdp (by omega)
  known item hitem name hname :=
    (hv.addBlocks hclean hnames).mem_keys_blockLookup.mpr (hknown item hitem name hname)
  int4 item hitem _ := by
    have hi := hlt item hitem
    unfold Int4
    omega

end EntityService.Database

namespace EntityService.Tasks
open Lib Database

variable {settings : Settings} {projectId : ProjectId} {dpId : DpId} {token : Token} {w : World}

/-- A provider without data whose next upload has a new receipt token. -/
structure CanUpload (db : Database) (dpId : DpId) (token : Token) : Prop where
  vacant : db.Vacant dpId
  fresh : db.FreshToken token
  own : db.OwnIds
  dp_lt : dpId < 2 ^ 31

theorem uploadClkDataBinary_succeeds (settings : Settings) (h : CanUpload w.db dpId token)
    {gen : Generator Item}
    {size : ℕ} {count : ℤ} {encodings : List Bytes} (hcount : Int4 count) (hsize : Int4 size)
    (hlen : encodings.length ≤ 2 ^ 31)
    (hgen : gen.mapM id = .ok (packedItems size encodings fun _ => [DEFAULT_BLOCK_ID])) :
    ∃ db, uploadClkDataBinary settings dpId gen token count size w = ({ w with db := db }, .ok ()) ∧
      db.projects = w.db.projects ∧ db.dataproviders = w.db.dataproviders := by
  obtain ⟨n, hn, hpos⟩ := settings.estimateGroupSize_natCast size
  obtain ⟨db1, h1⟩ : ∃ db1, w.db.insertEncodingMetadata none dpId token count 1 = .ok db1 :=
    ⟨_, insertEncodingMetadata_eq_ok.mpr ⟨h.fresh, ⟨hcount, by decide⟩, rfl⟩⟩
  obtain ⟨hs1, -, -, -, hp1, hd1⟩ := insertEncodingMetadata_ok h1
  obtain ⟨db2, h2⟩ : ∃ db2, db1.updateEncodingMetadataSetEncodingSize dpId size = .ok db2 :=
    ⟨_, updateEncodingMetadataSetEncodingSize_eq_ok.mpr ⟨hsize, rfl⟩⟩
  obtain ⟨hs2, -, -, hp2, hd2⟩ := updateEncodingMetadataSetEncodingSize_ok h2
  obtain ⟨db3, h3⟩ : ∃ db3, db2.updateEncodingMetadataSetEncodingSize dpId size = .ok db3 :=
    ⟨_, updateEncodingMetadataSetEncodingSize_eq_ok.mpr ⟨hsize, rfl⟩⟩
  obtain ⟨hs3, -, -, hp3, hd3⟩ := updateEncodingMetadataSetEncodingSize_ok h3
  have hsame := (hs1.trans hs2).trans hs3
  have h4 : db3.insertBlockingMetadata dpId [(DEFAULT_BLOCK_ID, count)] =
      .ok (db3.addBlocks dpId [(DEFAULT_BLOCK_ID, count)]) := by
    refine insertBlockingMetadata_eq_ok.mpr ⟨fun b hb => ?_, rfl⟩
    cases List.mem_singleton.mp hb
    exact ⟨show DEFAULT_BLOCK_ID.length ≤ 64 by decide, hcount⟩
  have hadm : (db3.addBlocks dpId [(DEFAULT_BLOCK_ID, count)]).Admits dpId
      (packedItems size encodings fun _ => [DEFAULT_BLOCK_ID]) := by
    refine (hsame.vacant h.vacant).admits (fun r hr => h.own r (hsame.encodings ▸ hr)) h.dp_lt
      clean_default (List.nodup_singleton _) ?_ ?_ ?_
    · rw [map_fst_packedItems]
      exact List.nodup_range
    · intro item hitem
      have hi := lt_of_mem_packedItems hitem
      omega
    · intro item hitem name hname
      obtain ⟨e, -, hi⟩ := mem_packedItems.mp hitem
      rw [hi] at hname
      exact hname
  have h5 := (storeEncodingsInDb_eq_ok hn hpos).mpr ⟨_, hgen, hadm, rfl⟩
  refine ⟨((db3.addBlocks dpId [(DEFAULT_BLOCK_ID, count)]).addItems dpId
    (packedItems size encodings fun _ => [DEFAULT_BLOCK_ID])).updateEncodingMetadata none dpId
      .ready, ?_, ?_, ?_⟩
  · have hfirst : transaction (fun db => do
        let db ← db.insertEncodingMetadata none dpId token count 1
        db.updateEncodingMetadataSetEncodingSize dpId size) w = ({ w with db := db2 }, .ok ()) :=
      transaction_of_ok (by rw [h1, ok_bind, h2])
    unfold uploadClkDataBinary
    rw [Action.bind_of_ok hfirst]
    refine transaction_of_ok ?_
    change (db2.updateEncodingMetadataSetEncodingSize dpId size >>= _) = _
    rw [h3, ok_bind, h4, ok_bind, h5]
    rfl
  · exact hp3.trans (hp2.trans hp1)
  · exact hd3.trans (hd2.trans hd1)

theorem findProject_of_exists {db : Database} (h : db.checkProjectExists projectId = true) :
    ∃ row, db.findProject projectId = some row := by
  unfold checkProjectExists at h
  have hpos : 0 < db.projects.countP
      (fun r => r.projectId = projectId ∧ r.markedForDeletion = false) := by
    have hone := of_decide_eq_true h
    omega
  obtain ⟨r, hr, hp⟩ := List.countP_pos_iff.mp hpos
  have hid : r.projectId = projectId := by
    simp only [Bool.decide_and, Bool.and_eq_true, decide_eq_true_eq] at hp
    exact hp.1
  exact Option.isSome_iff_exists.mp (List.find?_isSome.mpr ⟨r, hr, by simpa using hid⟩)

theorem scheduleCheck_succeeds (h : ∃ row, w.db.findProject projectId = some row)
    (checkDataReady : Bool) : ∃ b, scheduleCheck projectId checkDataReady w = (w, .ok b) := by
  obtain ⟨row, hrow⟩ := h
  unfold scheduleCheck clksUploadedToProject
  rw [Action.get_bind, hrow]
  exact ⟨_, rfl⟩

theorem Completed.readyUpload {db db' : Database} {count size : ℤ} {blocks : List (BlockName × ℤ)}
    {items : List Item} (h : Completed db db' dpId token count size blocks items) :
    db'.ReadyUpload token := by
  obtain ⟨r, hr, hdp, ht⟩ := exists_of_uploadKeys h.keys
  exact ⟨r, hr, ht, h.ready r hr hdp⟩

theorem Completed.filter_uploads {db db' : Database} {count size : ℤ}
    {blocks : List (BlockName × ℤ)} {items : List Item}
    (h : Completed db db' dpId token count size blocks items)
    (hnone : ∀ r ∈ db.uploads, r.dp ≠ dpId) :
    ∃ r, db'.uploads.filter (fun r => r.dp = dpId) = [r] ∧ r.token = token ∧ r.count = count ∧
      r.blockCount = blocks.length := by
  have hproj : ∀ rows : List UploadRow, (rows.filter (fun r => r.dp = dpId)).map
      (fun r => (r.dp, r.token, r.count, r.blockCount)) =
        (rows.map fun r => (r.dp, r.token, r.count, r.blockCount)).filter
          (fun r => r.1 = dpId) := by
    intro rows
    rw [List.filter_map]
    rfl
  have hold : (db.uploads.filter (fun r => r.dp = dpId)) = [] :=
    List.filter_eq_nil_iff.mpr fun r hr => by simpa using hnone r hr
  have hkeys : (db'.uploads.filter (fun r => r.dp = dpId)).map
      (fun r => (r.dp, r.token, r.count, r.blockCount)) =
        [(dpId, token, count, (blocks.length : ℤ))] := by
    have hmap := h.keys
    unfold uploadKeys at hmap
    rw [hproj, hmap, List.filter_append, ← hproj, hold]
    simp
  obtain ⟨r, hr, he⟩ := List.map_eq_singleton_iff.mp hkeys
  simp only [Prod.mk.injEq] at he
  exact ⟨r, hr, he.2⟩

/-- An object-store upload without blocks succeeds when its encodings can be read. -/
theorem runJob_encodingsOnly_succeeds (settings : Settings) (h : CanUpload w.db dpId token)
    (hproject : w.db.checkProjectExists projectId = true) {file : ExternalFile} {count : ℤ}
    {size : ℕ} {encodings : List Bytes} (hread : ReadObject w file count size encodings)
    (hcount : Int4 count) (hsize : Int4 size) (hlen : encodings.length ≤ 2 ^ 31) :
    ∃ w' b, runJob settings projectId dpId token (.pullExternalDataEncodingsOnly file) w =
      (w', .ok b) ∧ w'.db.ReadyUpload token := by
  obtain ⟨object, hobject, hhcount, hhsize, henc⟩ := hread.read
  obtain ⟨gen, hconv, hgen⟩ := convertedStream_of_objectEncodings henc hread.length_le
  obtain ⟨db, hupload, hprojects, -⟩ :=
    uploadClkDataBinary_succeeds settings h hcount hsize hlen hgen
  obtain ⟨items, -, hcompleted⟩ := uploadClkDataBinary_ok hupload
  have hrow : ∃ row, db.findProject projectId = some row := by
    unfold findProject
    rw [hprojects]
    exact findProject_of_exists hproject
  obtain ⟨b, hcheck⟩ := scheduleCheck_succeeds
    (w := { w with db := db, objects := [file].foldl Dict.erase w.objects }) hrow false
  refine ⟨{ w with db := db, objects := [file].foldl Dict.erase w.objects }, b, ?_,
    hcompleted.readyUpload⟩
  have hpull : pullExternalDataEncodingsOnly settings projectId dpId file token w =
      ({ w with db := db, objects := [file].foldl Dict.erase w.objects }, .ok b) := by
    have hget : getObject file w = (w, .ok object) := by
      unfold getObject
      rw [Action.get_bind, hobject]
      rfl
    unfold pullExternalDataEncodingsOnly
    rw [Action.get_bind, if_pos hproject, Action.bind_of_ok hget, hhcount, Action.lift_ok_bind,
      hhsize, Action.lift_ok_bind, hconv, Action.lift_ok_bind, Action.bind_of_ok hupload,
      deleteObjectStoreFiles, Action.modify_bind, hcheck]
  unfold runJob Action.handle
  simp only [hpull]

/-- What an object-store upload with blocks has to satisfy to be stored. -/
structure StorableBlocks (settings : Settings) (w : World) (encodingFile blocksFile : ExternalFile)
    (size : ℕ) (encodings : List Bytes) : Prop where
  read : ∃ pairs object count,
    ReadBlocks settings w encodingFile blocksFile pairs object count size ∧
    objectEncodings (isJson encodingFile) object.clks object.data size count.toNat =
      .ok encodings ∧
    (∀ i < encodings.length, decimal i ∈ (Dict.ofList (hashedBlocks settings pairs)).keys) ∧
    (hashedBlocks settings pairs).flatMap Prod.snd ≠ [] ∧ Int4 count ∧
    Int4 (counted ((hashedBlocks settings pairs).flatMap Prod.snd)).length ∧
    ∀ b ∈ counted ((hashedBlocks settings pairs).flatMap Prod.snd), Int4 b.2
  size : Int4 size

theorem StorableBlocks.unique {encodingFile blocksFile : ExternalFile} {size size' : ℕ}
    {encodings encodings' : List Bytes}
    (h : StorableBlocks settings w encodingFile blocksFile size encodings)
    (h' : StorableBlocks settings w encodingFile blocksFile size' encodings') :
    size = size' ∧ encodings = encodings' := by
  obtain ⟨pairs, object, count, hread, henc, -⟩ := h.read
  obtain ⟨pairs', object', count', hread', henc', -⟩ := h'.read
  obtain rfl := Option.some.inj (hread.encodingObject.symm.trans hread'.encodingObject)
  obtain rfl := Except.ok.inj (hread.hashCount.symm.trans hread'.hashCount)
  obtain rfl : size = size' :=
    Nat.cast_injective (Except.ok.inj (hread.hashSize.symm.trans hread'.hashSize))
  exact ⟨rfl, Except.ok.inj (henc.symm.trans henc')⟩

theorem Completed.storableBlocks {db : Database} {encodingFile blocksFile : ExternalFile}
    {pairs : List (List Char × List JsonScalar)} {object : ExternalObject} {count : ℤ} {s : ℕ}
    {encodings : List Bytes} {items : List Item}
    (h : Completed w.db db dpId token count s
      (counted ((hashedBlocks settings pairs).flatMap Prod.snd)) items)
    (hread : ReadBlocks settings w encodingFile blocksFile pairs object count s)
    (henc : objectEncodings (isJson encodingFile) object.clks object.data s count.toNat =
      .ok encodings)
    (hkeys : ∀ i < encodings.length, decimal i ∈ (Dict.ofList (hashedBlocks settings pairs)).keys)
    (hne : (hashedBlocks settings pairs).flatMap Prod.snd ≠ []) :
    StorableBlocks settings w encodingFile blocksFile s encodings :=
  ⟨⟨pairs, object, count, hread, henc, hkeys, hne, h.metadata.1, h.declared⟩, h.metadata.2⟩

/-- The one transaction of an upload with blocks succeeds for items that fit. -/
theorem storeExternalData_succeeds {db : Database} (h : CanUpload db dpId token)
    {gen : Generator Item} {names : List BlockName} {size : ℕ} {count : ℤ} {encodings : List Bytes}
    {blockNames : ℕ → List BlockName}
    (hnames : ∀ name ∈ names, ∃ scalar, name = hashBlockName settings.blake2b scalar)
    (hne : names ≠ []) (hcount : Int4 count) (hsize : Int4 size)
    (hblocks : Int4 (counted names).length) (hcounts : ∀ b ∈ counted names, Int4 b.2)
    (hlen : encodings.length ≤ 2 ^ 31) (hmem : ∀ i, ∀ name ∈ blockNames i, name ∈ names)
    (hgen : gen.mapM id = .ok (packedItems size encodings blockNames)) :
    ∃ db', storeExternalData settings dpId token gen (Dict.tally names) size count db =
      .ok db' ∧ db'.projects = db.projects := by
  obtain ⟨n, hn, hpos⟩ := settings.estimateGroupSize_natCast size
  rw [length_counted] at hblocks
  obtain ⟨db1, h1⟩ : ∃ db1, db.insertEncodingMetadata none dpId token count
      (Dict.tally names).keys.length = .ok db1 :=
    ⟨_, insertEncodingMetadata_eq_ok.mpr ⟨h.fresh, ⟨hcount, hblocks⟩, rfl⟩⟩
  obtain ⟨hs1, -, -, -, hp1, -⟩ := insertEncodingMetadata_ok h1
  obtain ⟨db2, h2⟩ : ∃ db2, db1.updateEncodingMetadataSetEncodingSize dpId size = .ok db2 :=
    ⟨_, updateEncodingMetadataSetEncodingSize_eq_ok.mpr ⟨hsize, rfl⟩⟩
  obtain ⟨hs2, -, -, hp2, -⟩ := updateEncodingMetadataSetEncodingSize_ok h2
  have hsame := hs1.trans hs2
  have hclean : ∀ b ∈ counted names, Clean b.1 := clean_counted fun name hname => by
    obtain ⟨scalar, rfl⟩ := hnames name hname
    exact clean_hashBlockName settings.blake2b scalar
  have h3 : db2.insertBlockingMetadata dpId (counted names) =
      .ok (db2.addBlocks dpId (counted names)) := by
    refine insertBlockingMetadata_eq_ok.mpr ⟨fun b hb => ⟨?_, hcounts b hb⟩, rfl⟩
    obtain ⟨scalar, hscalar⟩ := hnames b.1 (mem_counted.mp hb).1
    rw [hscalar]
    exact (settings.blake2b.length_hexdigest scalar.text).le
  have hadm : (db2.addBlocks dpId (counted names)).Admits dpId
      (packedItems size encodings blockNames) := by
    refine (hsame.vacant h.vacant).admits (fun r hr => h.own r (hsame.encodings ▸ hr)) h.dp_lt
      hclean (by rw [map_fst_counted]; exact Dict.nodup_keys _) ?_ ?_ ?_
    · rw [map_fst_packedItems]
      exact List.nodup_range
    · intro item hitem
      have hi := lt_of_mem_packedItems hitem
      omega
    · intro item hitem name hname
      obtain ⟨e, -, hi⟩ := mem_packedItems.mp hitem
      rw [hi] at hname
      rw [map_fst_counted, Dict.mem_keys_tally]
      exact hmem item.1 name hname
  have h4 := (storeEncodingsInDb_eq_ok hn hpos).mpr ⟨_, hgen, hadm, rfl⟩
  have hkeys : (Dict.tally names).keys ≠ [] := by
    obtain ⟨name, hname⟩ := List.exists_mem_of_ne_nil _ hne
    exact List.ne_nil_of_mem (Dict.mem_keys_tally.mpr hname)
  obtain ⟨db5, h5⟩ : ∃ db5, (((db2.addBlocks dpId (counted names)).addItems dpId (packedItems size
      encodings blockNames)).updateEncodingMetadata none dpId .ready).updateBlocksState dpId
        (Dict.tally names).keys .ready = .ok db5 := by
    unfold updateBlocksState
    rw [ensure, if_pos hkeys]
    exact ⟨_, rfl⟩
  obtain ⟨-, -, -, hp5, -⟩ := updateBlocksState_ok h5
  refine ⟨db5, ?_, hp5.trans (hp2.trans hp1)⟩
  unfold storeExternalData
  rw [h1, ok_bind, h2, ok_bind]
  change (db2.insertBlockingMetadata dpId (counted names) >>= _) = _
  rw [h3, ok_bind, h4, ok_bind]
  exact h5

/-- An object-store upload with blocks succeeds when its encodings and its blocks can be read. -/
theorem runJob_blocks_succeeds (h : CanUpload w.db dpId token)
    (hproject : w.db.checkProjectExists projectId = true) {encodingFile blocksFile : ExternalFile}
    {size : ℕ} {encodings : List Bytes}
    (hstorable : StorableBlocks settings w encodingFile blocksFile size encodings) :
    ∃ w' b, runJob settings projectId dpId token (.pullExternalData encodingFile blocksFile) w =
      (w', .ok b) ∧ w'.db.ReadyUpload token := by
  obtain ⟨pairs, object, count, hread, henc, hkeys, hne, hcount, hblocks, hcounts⟩ := hstorable.read
  obtain ⟨blocksObject, hblocksObject, hpairs⟩ := hread.blocksObject
  have hlength : encodings.length ≤ 2 ^ 31 := by
    have hle := length_objectEncodings_le henc
    unfold Int4 at hcount
    omega
  have hgen := externalEncodings_iff.mpr ⟨encodings, henc, by omega, hkeys, rfl⟩
  obtain ⟨db, hstore, hprojects⟩ := storeExternalData_succeeds h
    (fun name hname => mem_hashedNames hname) hne hcount hstorable.size hblocks hcounts hlength
    (fun i name hname => mem_of_mem_mapNames hname) hgen
  have hclean : ∀ name ∈ (hashedBlocks settings pairs).flatMap Prod.snd, Clean name := by
    intro name hname
    obtain ⟨scalar, rfl⟩ := mem_hashedNames hname
    exact clean_hashBlockName settings.blake2b scalar
  obtain ⟨-, n, items, -, -, -, hcompleted⟩ := storeExternalData_ok hclean hstore
  have hrow : ∃ row, db.findProject projectId = some row := by
    unfold findProject
    rw [hprojects]
    exact findProject_of_exists hproject
  obtain ⟨b, hcheck⟩ := scheduleCheck_succeeds (w := { w with
    db := db, objects := [encodingFile, blocksFile].foldl Dict.erase w.objects }) hrow false
  refine ⟨{ w with db := db, objects := [encodingFile, blocksFile].foldl Dict.erase w.objects }, b,
    ?_, hcompleted.readyUpload⟩
  have hpull : pullExternalData settings projectId dpId encodingFile blocksFile token w =
      ({ w with db := db, objects := [encodingFile, blocksFile].foldl Dict.erase w.objects },
        .ok b) := by
    have hget : getObject blocksFile w = (w, .ok blocksObject) := by
      unfold getObject
      rw [Action.get_bind, hblocksObject]
      rfl
    have hget' : getObject encodingFile w = (w, .ok object) := by
      unfold getObject
      rw [Action.get_bind, hread.encodingObject]
      rfl
    have hassert : ensure (count = (Dict.ofList (hashedBlocks settings pairs)).keys.length)
        Error.assertionError = .ok () := ensure_eq_ok.mpr hread.count_eq
    unfold pullExternalData
    rw [Action.get_bind, if_pos hproject, Action.bind_of_ok hget, hpairs, Action.lift_ok_bind,
      Action.bind_of_ok hget', hread.hashCount, Action.lift_ok_bind, hread.hashSize,
      Action.lift_ok_bind]
    change (Action.lift (ensure (count = (Dict.ofList (hashedBlocks settings pairs)).keys.length)
      Error.assertionError) >>= _) w = _
    rw [hassert, Action.lift_ok_bind]
    refine (Action.bind_of_ok (transaction_of_ok hstore)).trans ?_
    exact hcheck
  unfold runJob Action.handle
  simp only [hpull]

theorem hex_of_all {digest : List Char}
    (h : digest.all (fun c => "0123456789abcdef".toList.contains c) = true) :
    ∀ c ∈ digest, c ∈ "0123456789abcdef".toList :=
  fun c hc => List.contains_iff_mem.mp (List.all_eq_true.mp h c hc)

/-- The digests of the texts `0` and `1`. -/
def knownDigests : Blake2b where
  hexdigest s :=
    if s = ['0'] then "0fd923ca5e7218c4ba3c3801c26a617ecdbfdaebb9c76ce2eca166e7855efbb8".toList
    else if s = ['1'] then
      "92cdf578c47085a5992256f0dcf97d0b19f1f1c9de4d5fe30c3ace6191b6e5db".toList
    else List.replicate 64 '0'
  length_hexdigest s := by
    split_ifs
    · decide
    · decide
    · exact List.length_replicate
  hex s c hc := by
    split_ifs at hc
    · exact hex_of_all (by decide) c hc
    · exact hex_of_all (by decide) c hc
    · rw [List.eq_of_mem_replicate hc]
      decide

def defaultSettings : Settings where
  blake2b := knownDigests
  minEncodingSize := 1
  maxEncodingSize := 1024
  estimateGroupSize := estimateGroupSize
  estimateGroupSize_natCast := estimateGroupSize_natCast

/-- A project with two providers that have not uploaded anything yet. -/
def newProject (usesBlocking : Bool) : Database where
  projects := [⟨"project", none, none, 2, .groups, false, usesBlocking⟩]
  dataproviders := [⟨1, "token-1", .inProgress, "project"⟩, ⟨2, "token-2", .inProgress, "project"⟩]
  uploads := []
  blocks := []
  encodings := []
  encodingblocks := []
  nextBlockId := 1

theorem canUpload_newProject (usesBlocking : Bool) {dpId : DpId} (hdp : dpId < 2 ^ 31)
    (token : Token) : CanUpload (newProject usesBlocking) dpId token where
  vacant := ⟨by simp [newProject], by simp [newProject], by simp [newProject]⟩
  fresh := by simp [FreshToken, newProject]
  own := by simp [OwnIds, newProject]
  dp_lt := hdp

end EntityService.Tasks
