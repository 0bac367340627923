import EntityService.Tasks.Success
import EntityService.Views.Project

/-! Inline uploads: what the view puts into quarantine, and what the background task stores
of it. -/
namespace EntityService.Views
open Lib Database Tasks

variable {settings : Settings} {projectId : ProjectId} {dpId : DpId} {token : Token} {w w' : World}
  {entries : List (List JsonScalar)}

def listedNames (blake2b : Blake2b) (entries : List (List JsonScalar)) : List BlockName :=
  entries.flatMap fun entry => (entry.drop 1).map (hashBlockName blake2b)

theorem clean_listedNames {blake2b : Blake2b} :
    ∀ name ∈ listedNames blake2b entries, Clean name := by
  intro name hname
  obtain ⟨entry, -, hname⟩ := List.mem_flatMap.mp hname
  obtain ⟨scalar, -, rfl⟩ := List.mem_map.mp hname
  exact clean_hashBlockName blake2b scalar

theorem length_le_of_mem_counted {blake2b : Blake2b} {b : BlockName × ℤ}
    (h : b ∈ counted (listedNames blake2b entries)) : b.1.length ≤ 64 := by
  have hm : b.1 ∈ (counted (listedNames blake2b entries)).map Prod.fst := List.mem_map_of_mem h
  rw [map_fst_counted, Dict.mem_keys_tally] at hm
  obtain ⟨entry, -, hname⟩ := List.mem_flatMap.mp hm
  obtain ⟨scalar, -, he⟩ := List.mem_map.mp hname
  rw [← he]
  exact (blake2b.length_hexdigest scalar.text).le

theorem flatMap_entryNames (blake2b : Blake2b) (entries : List (List JsonScalar)) :
    (List.range entries.length).flatMap (entryNames blake2b entries) =
      listedNames blake2b entries := by
  have hmap : (List.range entries.length).map (entryNames blake2b entries) =
      entries.map fun entry => (entry.drop 1).map (hashBlockName blake2b) := by
    refine List.ext_getElem (by simp) fun i hi hi' => ?_
    have hlt : i < entries.length := by simpa using hi
    simp [entryNames, hlt]
  unfold listedNames
  rw [List.flatMap_def, hmap, ← List.flatMap_def]

theorem mapM_entryBlocks_eq_ok {blocks : List (List JsonScalar)} :
    entries.mapM entryBlocks = .ok blocks ↔
      [] ∉ entries ∧ blocks = entries.map fun entry => entry.drop 1 := by
  have hentry : ∀ (entry blocks : List JsonScalar), entryBlocks entry = .ok blocks ↔
      entry ≠ [] ∧ blocks = entry.drop 1 := by
    intro entry blocks
    cases entry with
    | nil => simp [entryBlocks]
    | cons b64Encoding rest => simp [entryBlocks, eq_comm]
  rw [mapM_eq_ok_map hentry]
  refine and_congr_left fun _ => ?_
  constructor
  · exact fun h hnil => h [] hnil rfl
  · rintro h entry hentry rfl
    exact h hentry

def addUpload (settings : Settings) (db : Database) (dpId : DpId) (token : Token)
    (entries : List (List JsonScalar)) : Database :=
  { db with uploads := db.uploads ++ [⟨dpId, token, RAW_FILENAME_FMT token, .pending, none,
      entries.length, (counted (listedNames settings.blake2b entries)).length⟩] }

theorem sameData_addUpload (settings : Settings) (db : Database) (dpId : DpId) (token : Token)
    (entries : List (List JsonScalar)) : SameData db (addUpload settings db dpId token entries) :=
  ⟨rfl, rfl, rfl, rfl⟩

/-- The database of a provider whose upload waits in quarantine. -/
def pendingUpload (settings : Settings) (db : Database) (dpId : DpId) (token : Token)
    (entries : List (List JsonScalar)) : Database :=
  (addUpload settings db dpId token entries).addBlocks dpId
    (counted (listedNames settings.blake2b entries))

def quarantined (settings : Settings) (w : World) (dpId : DpId) (token : Token)
    (entries : List (List JsonScalar)) : World :=
  { w with
    quarantine := w.quarantine.set (RAW_FILENAME_FMT token) entries
    db := pendingUpload settings w.db dpId token entries }

/-- Every entry has an encoding, and the numbers of entries and of blocks fit their columns. -/
structure Countable (settings : Settings) (entries : List (List JsonScalar)) : Prop where
  nonempty : [] ∉ entries
  length : Int4 entries.length
  blocks : Int4 (counted (listedNames settings.blake2b entries)).length
  counts : ∀ b ∈ counted (listedNames settings.blake2b entries), Int4 b.2

theorem length_listedNames (blake2b : Blake2b) (entries : List (List JsonScalar)) :
    (listedNames blake2b entries).length = (entries.map fun entry => entry.length - 1).sum := by
  unfold listedNames
  rw [List.length_flatMap]
  simp

theorem int4_of_le {m n : ℕ} (h : m ≤ n) (hn : n < 2 ^ 31) : Int4 m := by
  unfold Int4
  omega

/-- Entries that list less than `2 ^ 31` names can be counted. -/
theorem countable_of_length {settings : Settings} (hnonempty : [] ∉ entries)
    (hlength : entries.length < 2 ^ 31)
    (hnames : (entries.map fun entry => entry.length - 1).sum < 2 ^ 31) :
    Countable settings entries := by
  rw [← length_listedNames settings.blake2b] at hnames
  refine ⟨hnonempty, int4_of_le le_rfl hlength, int4_of_le ?_ hnames, fun b hb => ?_⟩
  · rw [length_counted]
    exact ((Dict.tally _).nodup_keys.subperm fun name hname =>
      Dict.mem_keys_tally.mp hname).length_le
  · rw [(mem_counted.mp hb).2]
    exact int4_of_le List.count_le_length hnames

/-- The view accepts entries under a new receipt token. -/
theorem quarantineUpload_eq_ok {job : Job} :
    quarantineUpload settings dpId entries token w = (w', .ok job) ↔
      (w.db.FreshToken token ∧ Countable settings entries) ∧
        job = .handleRawUpload ∧ w' = quarantined settings w dpId token entries := by
  have hnames : (entries.map fun entry => entry.drop 1).flatten.map
      (hashBlockName settings.blake2b) = listedNames settings.blake2b entries := by
    unfold listedNames
    rw [List.flatMap_def, List.map_flatten, List.map_map]
    rfl
  constructor
  · intro h
    obtain ⟨w1, blocks, hb, h1⟩ := Action.bind_eq_ok.mp h
    obtain ⟨hblocks, rfl⟩ := Action.lift_ok hb
    obtain ⟨hne, rfl⟩ := mapM_entryBlocks_eq_ok.mp hblocks
    simp only [Action.modify_bind, hnames] at h1
    obtain ⟨w2, _, htransaction, h2⟩ := Action.bind_eq_ok.mp h1
    obtain ⟨db, hdb, rfl⟩ := transaction_eq_ok.mp htransaction
    obtain ⟨db1, hinsert, hdb⟩ := bind_eq_ok.mp hdb
    obtain ⟨hcounts, rfl⟩ := insertBlockingMetadata_eq_ok.mp hdb
    rw [← length_counted] at hinsert
    obtain ⟨hfresh, hint, rfl⟩ := insertEncodingMetadata_eq_ok.mp hinsert
    cases h2
    exact ⟨⟨hfresh, hne, hint.1, hint.2, fun b hb => (hcounts b hb).2⟩, rfl, rfl⟩
  · rintro ⟨⟨hfresh, hentries⟩, rfl, rfl⟩
    have hlift := mapM_entryBlocks_eq_ok.mpr ⟨hentries.nonempty, rfl⟩
    have hcounts : ∀ b ∈ counted (listedNames settings.blake2b entries),
        b.1.length ≤ 64 ∧ Int4 b.2 :=
      fun b hb => ⟨length_le_of_mem_counted hb, hentries.counts b hb⟩
    unfold quarantineUpload
    rw [hlift, Action.lift_ok_bind, hnames]
    simp only [Action.modify_bind]
    refine Action.bind_eq_ok.mpr ⟨_, (), transaction_of_ok (bind_eq_ok.mpr ⟨_, ?_,
      insertBlockingMetadata_eq_ok.mpr ⟨hcounts, rfl⟩⟩), rfl⟩
    rw [← length_counted]
    exact insertEncodingMetadata_eq_ok.mpr ⟨hfresh, ⟨hentries.length, hentries.blocks⟩, rfl⟩

def inlineItems (settings : Settings) (entries : List (List JsonScalar)) (size : ℕ)
    (encodings : List Bytes) : List Item :=
  packedItems size encodings (entryNames settings.blake2b entries)

theorem storeRawUpload_iff {db db' : Database} {size : ℕ} :
    (∃ gen, convertEncodingsFromBase64ToBinary (streamJsonClksnblocks settings.blake2b entries) =
        .ok (size, gen) ∧ storeEncodingsInDb settings db dpId gen size = .ok db') ↔
      ∃ encodings, ReadEntries entries size encodings ∧
        db.Admits dpId (inlineItems settings entries size encodings) ∧
        db' = db.addItems dpId (inlineItems settings entries size encodings) := by
  obtain ⟨n, hn, hpos⟩ := settings.estimateGroupSize_natCast size
  simp only [storeEncodingsInDb_eq_ok hn hpos]
  constructor
  · rintro ⟨gen, hgen, items, hitems, hadm, rfl⟩
    obtain ⟨encodings, hread, rfl⟩ := (convertEncodings_iff settings.blake2b).mp ⟨gen, hgen, hitems⟩
    exact ⟨encodings, hread, hadm, rfl⟩
  · rintro ⟨encodings, hread, hadm, rfl⟩
    obtain ⟨gen, hgen, hitems⟩ := (convertEncodings_iff settings.blake2b).mpr
      ⟨encodings, hread, rfl⟩
    exact ⟨gen, hgen, _, hitems, hadm, rfl⟩

def checkedUpload (settings : Settings) (db : Database) (projectId : ProjectId) (dpId : DpId)
    (size : ℤ) : Database :=
  if checkDataprovidersEncoding settings db projectId size then db
  else db.updateEncodingMetadata (some "DELETED") dpId .error

section Raw
variable {db : Database} {size : ℕ}

theorem checkedUpload_of_fits {size : ℤ} (dpId : DpId)
    (h : checkDataprovidersEncoding settings db projectId size = true) :
    checkedUpload settings db projectId dpId size = db := if_pos h

theorem sameData_checkedUpload (db : Database) (size : ℤ) :
    SameData db (checkedUpload settings db projectId dpId size) := by
  unfold checkedUpload
  split_ifs
  · exact SameData.refl db
  · exact sameData_updateEncodingMetadata db dpId _ _

@[simp] theorem uploadKeys_checkedUpload (db : Database) (size : ℤ) :
    (checkedUpload settings db projectId dpId size).uploadKeys = db.uploadKeys := by
  unfold checkedUpload
  split_ifs
  · rfl
  · exact uploadKeys_updateEncodingMetadata db dpId _ _

@[simp] theorem projects_checkedUpload (db : Database) (size : ℤ) :
    (checkedUpload settings db projectId dpId size).projects = db.projects := by
  unfold checkedUpload
  split_ifs <;> rfl

@[simp] theorem dataproviders_checkedUpload (db : Database) (size : ℤ) :
    (checkedUpload settings db projectId dpId size).dataproviders = db.dataproviders := by
  unfold checkedUpload
  split_ifs <;> rfl

theorem exists_find?_upload (h : ∃ r ∈ db.uploads, r.dp = dpId) :
    ∃ r, db.uploads.find? (fun r => r.dp = dpId) = some r := by
  obtain ⟨r, hr, hdp⟩ := h
  exact Option.isSome_iff_exists.mp (List.find?_isSome.mpr ⟨r, hr, decide_eq_true hdp⟩)

/-- An upload of a size that does not fit the project is marked, and then goes on. -/
theorem check_bind (settings : Settings) (projectId : ProjectId) (size : ℕ) (rest : Task Bool)
    (hdp : ∃ r ∈ w.db.uploads, r.dp = dpId) :
    (if (!checkDataprovidersEncoding settings w.db projectId size) = true then do
      handleInvalidEncodingData dpId
      rest
    else rest) w = rest { w with db := checkedUpload settings w.db projectId dpId size } := by
  unfold checkedUpload
  cases hcheck : checkDataprovidersEncoding settings w.db projectId size with
  | true => rfl
  | false =>
    obtain ⟨found, hfound⟩ := exists_find?_upload hdp
    have hmark : handleInvalidEncodingData dpId w =
        ({ w with db := w.db.updateEncodingMetadata (some "DELETED") dpId .error }, .ok ()) := by
      refine transaction_of_ok ?_
      rw [hfound]
      rfl
    simp only [Bool.not_false, if_true, Bool.false_eq_true, if_false]
    rw [Action.bind_of_ok hmark]

def saveUpload (dpId : DpId) (size : ℤ) (db : Database) : Except Error Database := do
  let db ← db.updateEncodingMetadataSetEncodingSize dpId size
  return db.updateEncodingMetadata none dpId .ready

theorem saveUpload_of_int4 (dpId : DpId) (db : Database) (hsize : Int4 size) :
    ∃ db1, db.updateEncodingMetadataSetEncodingSize dpId size = .ok db1 ∧
      saveUpload dpId size db = .ok (db1.updateEncodingMetadata none dpId .ready) := by
  refine ⟨_, updateEncodingMetadataSetEncodingSize_eq_ok.mpr ⟨hsize, rfl⟩, ?_⟩
  unfold saveUpload
  rw [updateEncodingMetadataSetEncodingSize_eq_ok.mpr ⟨hsize, rfl⟩]
  rfl

theorem saveUpload_of_not_int4 (dpId : DpId) (db : Database) (hsize : ¬ Int4 size) :
    saveUpload dpId size db = .error .databaseError := by
  unfold saveUpload updateEncodingMetadataSetEncodingSize ensure
  rw [if_neg hsize]
  rfl

/-- The part of the task after the encodings are stored. -/
def finishRawUpload (settings : Settings) (projectId : ProjectId) (dpId : DpId) (size : ℕ) :
    Task Bool := do
  let w ← Action.get
  if !checkDataprovidersEncoding settings w.db projectId size then
    handleInvalidEncodingData dpId
  transaction (saveUpload dpId size)
  scheduleCheck projectId true

theorem finishRawUpload_cases {r : Except Error Bool}
    (h : finishRawUpload settings projectId dpId size w = (w', r))
    (hproject : w.db.checkProjectExists projectId = true)
    (hdp : ∃ r ∈ w.db.uploads, r.dp = dpId) :
    (¬ Int4 size ∧ (∀ b, r ≠ .ok b) ∧
        w' = { w with db := checkedUpload settings w.db projectId dpId size }) ∨
      Int4 size ∧ (∃ b, r = .ok b) ∧
        ∃ db, saveUpload dpId size (checkedUpload settings w.db projectId dpId size) = .ok db ∧
          w' = { w with db := db } := by
  unfold finishRawUpload at h
  rw [Action.get_bind, check_bind settings projectId size _ hdp] at h
  rcases Classical.em (Int4 size) with hsize | hsize
  · right
    obtain ⟨db, hset, hsave⟩ := saveUpload_of_int4 dpId
      (checkedUpload settings w.db projectId dpId size) hsize
    have hprojects : db.projects = w.db.projects := by
      rw [(updateEncodingMetadataSetEncodingSize_ok hset).2.2.2.1, projects_checkedUpload]
    have hrow : ∃ row, (db.updateEncodingMetadata none dpId .ready).findProject projectId =
        some row := by
      unfold findProject updateEncodingMetadata
      rw [hprojects]
      exact findProject_of_exists hproject
    obtain ⟨b, hb⟩ := scheduleCheck_succeeds
      (w := { w with db := db.updateEncodingMetadata none dpId .ready }) hrow true
    simp only [transaction_bind, hsave, hb] at h
    obtain ⟨rfl, rfl⟩ := Prod.mk.inj h
    exact ⟨hsize, ⟨b, rfl⟩, _, hsave, rfl⟩
  · left
    simp only [transaction_bind, saveUpload_of_not_int4 dpId _ hsize] at h
    have hw := congrArg Prod.fst h
    have hr := congrArg Prod.snd h
    refine ⟨hsize, fun b hb => ?_, hw.symm⟩
    cases hr.trans hb

/-- What the task does to the database: nothing, or the encodings are stored and their size is
checked and saved. -/
theorem handleRawUpload_cases {r : Except Error Bool}
    (h : handleRawUpload settings projectId dpId token w = (w', r))
    (hproject : w.db.checkProjectExists projectId = true)
    (hdp : ∃ r ∈ w.db.uploads, r.dp = dpId)
    (hfile : w.quarantine.get? (RAW_FILENAME_FMT token) = some entries) :
    (w' = w ∧ (∀ b, r ≠ .ok b) ∧ ¬ ∃ size encodings, ReadEntries entries size encodings ∧
      w.db.Admits dpId (inlineItems settings entries size encodings)) ∨
    ∃ (size : ℕ) (encodings : List Bytes), ReadEntries entries size encodings ∧
      w.db.Admits dpId (inlineItems settings entries size encodings) ∧
      finishRawUpload settings projectId dpId size
        { w with db := w.db.addItems dpId (inlineItems settings entries size encodings) } =
          (w', r) := by
  obtain ⟨found, hfound⟩ := exists_find?_upload hdp
  have hmeta : w.db.getEncodingMetadata dpId = .ok (found.count, found.blockCount) := by
    unfold getEncodingMetadata
    rw [hfound]
    rfl
  unfold handleRawUpload at h
  rw [Action.get_bind, if_pos hproject, hmeta, Action.lift_ok_bind, hfile] at h
  simp only [orRaise, Option.elim_some, Action.lift_ok_bind] at h
  cases hconv : convertEncodingsFromBase64ToBinary
      (streamJsonClksnblocks settings.blake2b entries) with
  | error e =>
    rw [hconv, Action.lift_error_bind, Prod.mk.injEq] at h
    obtain ⟨rfl, rfl⟩ := h
    refine Or.inl ⟨rfl, by simp, ?_⟩
    rintro ⟨size, encodings, hread, hadm⟩
    obtain ⟨gen, hgen, -⟩ := storeRawUpload_iff.mpr ⟨encodings, hread, hadm, rfl⟩
    cases hconv.symm.trans hgen
  | ok pair =>
    obtain ⟨size, gen⟩ := pair
    rw [hconv, Action.lift_ok_bind] at h
    rw [transaction_bind] at h
    cases hstore : storeEncodingsInDb settings w.db dpId gen size with
    | error e =>
      rw [hstore, Prod.mk.injEq] at h
      obtain ⟨rfl, rfl⟩ := h
      refine Or.inl ⟨rfl, by simp, ?_⟩
      rintro ⟨size', encodings, hread, hadm⟩
      obtain ⟨gen', hgen', hstore'⟩ := storeRawUpload_iff.mpr ⟨encodings, hread, hadm, rfl⟩
      cases hconv.symm.trans hgen'
      cases hstore.symm.trans hstore'
    | ok db =>
      obtain ⟨encodings, hread, hadm, rfl⟩ := storeRawUpload_iff.mp ⟨gen, hconv, hstore⟩
      rw [hstore] at h
      exact Or.inr ⟨size, encodings, hread, hadm, h⟩

end Raw

section Quarantined
variable {r : Except Error Bool}

theorem uploadKeys_pendingUpload (settings : Settings) (db : Database) (dpId : DpId) (token : Token)
    (entries : List (List JsonScalar)) :
    (pendingUpload settings db dpId token entries).uploadKeys = db.uploadKeys ++
      [(dpId, token, (entries.length : ℤ),
        ((counted (listedNames settings.blake2b entries)).length : ℤ))] := by
  unfold pendingUpload addUpload uploadKeys addBlocks
  rw [List.map_append]
  rfl

theorem exists_upload_quarantined (settings : Settings) (w : World) (dpId : DpId) (token : Token)
    (entries : List (List JsonScalar)) :
    ∃ r ∈ (quarantined settings w dpId token entries).db.uploads, r.dp = dpId := by
  obtain ⟨r, hr, hdp, -⟩ :=
    exists_of_uploadKeys (uploadKeys_pendingUpload settings w.db dpId token entries)
  exact ⟨r, hr, hdp⟩

theorem nodup_counted (names : List BlockName) : ((counted names).map Prod.fst).Nodup := by
  rw [map_fst_counted]
  exact (Dict.tally names).nodup_keys

/-- Saving an upload whose data is stored completes it. -/
theorem saveUpload_ok {db db' : Database} {size : ℕ} {items : List Item}
    (hfresh : db.FreshToken token) (hentries : Countable settings entries) (hsize : Int4 size)
    (hadm : (pendingUpload settings db dpId token entries).Admits dpId items)
    (h : saveUpload dpId size (checkedUpload settings
      ((pendingUpload settings db dpId token entries).addItems dpId items) projectId dpId size) =
        .ok db') :
    Completed db db' dpId token entries.length size
      (counted (listedNames settings.blake2b entries)) items := by
  obtain ⟨db1, h1, hdb'⟩ := bind_eq_ok.mp h
  obtain ⟨hs1, hk1, -, hp1, hd1⟩ := updateEncodingMetadataSetEncodingSize_ok h1
  cases hdb'
  have hkeys := uploadKeys_pendingUpload settings db dpId token entries
  have hsame := (sameData_checkedUpload _ _).trans hs1
  refine ⟨hfresh, ?_, ?_, ?_, ⟨hentries.length, hsize⟩,
    ⟨hentries.blocks, hentries.counts⟩,
    ⟨hp1.trans (projects_checkedUpload _ _), hd1.trans (dataproviders_checkedUpload _ _)⟩,
    ?_, ?_, ?_⟩
  · rw [uploadKeys_updateEncodingMetadata, hk1, uploadKeys_checkedUpload]
    exact hkeys
  · exact fun r hr hdp => state_updateEncodingMetadata _ dpId hr hdp
  · exact hasSize_updateEncodingMetadata _ dpId
      (hasSize_updateEncodingMetadataSetEncodingSize h1) none .ready
  · exact hsame.encodings
  · exact hadm.fresh
  · intro hv
    exact hv.ingested (clean_counted clean_listedNames) (nodup_counted _)
      (sameData_addUpload settings db dpId token entries) hadm
      (hsame.trans (sameData_updateEncodingMetadata _ dpId none .ready))

/-- A task that ends well has stored all entries that were put into quarantine. -/
theorem handleRawUpload_ok {b : Bool}
    (h : handleRawUpload settings projectId dpId token (quarantined settings w dpId token entries) =
      (w', .ok b))
    (hproject : w.db.checkProjectExists projectId = true) (hfresh : w.db.FreshToken token)
    (hentries : Countable settings entries) :
    ∃ size encodings, ReadEntries entries size encodings ∧
      (pendingUpload settings w.db dpId token entries).Admits dpId
        (inlineItems settings entries size encodings) ∧
      Completed w.db w'.db dpId token entries.length size
        (counted (listedNames settings.blake2b entries))
        (inlineItems settings entries size encodings) := by
  have hfile : (quarantined settings w dpId token entries).quarantine.get?
      (RAW_FILENAME_FMT token) = some entries := Dict.get?_set_self _ _ _
  have hdp := exists_upload_quarantined settings w dpId token entries
  rcases handleRawUpload_cases h hproject hdp hfile with
    ⟨-, hb, -⟩ | ⟨size, encodings, hread, hadm, hfinish⟩
  · exact absurd rfl (hb b)
  · rcases finishRawUpload_cases hfinish hproject hdp with ⟨-, hb, -⟩ | ⟨hsize, -, db, hsave, rfl⟩
    · exact absurd rfl (hb b)
    · exact ⟨size, encodings, hread, hadm, saveUpload_ok hfresh hentries hsize hadm hsave⟩

/-- The entries of a provider without data are let in. -/
theorem admits_pendingUpload (hcan : CanUpload w.db dpId token) {size : ℕ} {encodings : List Bytes}
    (hlength : Int4 entries.length) (hread : ReadEntries entries size encodings) :
    (pendingUpload settings w.db dpId token entries).Admits dpId
      (inlineItems settings entries size encodings) := by
  have hlen := hread.length_eq
  unfold Int4 at hlength
  have hvacant := (sameData_addUpload settings w.db dpId token entries).vacant hcan.vacant
  refine hvacant.admits hcan.own hcan.dp_lt (clean_counted clean_listedNames) (nodup_counted _)
    ?_ ?_ ?_
  · unfold inlineItems
    rw [map_fst_packedItems]
    exact List.nodup_range
  · intro item hitem
    have hi := lt_of_mem_packedItems hitem
    omega
  · intro item hitem name hname
    rw [map_fst_counted, Dict.mem_keys_tally, ← flatMap_entryNames, ← hlen,
      ← flatMap_packedItems size encodings]
    exact List.mem_flatMap.mpr ⟨item, hitem, hname⟩

/-- The task ends well on entries of a provider without data that can be read. It checks and saves
the size of the upload after it has stored its items. -/
theorem handleRawUpload_saves (settings : Settings) (hcan : CanUpload w.db dpId token)
    (hproject : w.db.checkProjectExists projectId = true) {size : ℕ} {encodings : List Bytes}
    (hlength : Int4 entries.length) (hsize : Int4 size)
    (hread : ReadEntries entries size encodings) :
    ∃ w' b, handleRawUpload settings projectId dpId token
        (quarantined settings w dpId token entries) = (w', .ok b) ∧
      saveUpload dpId size (checkedUpload settings
        ((pendingUpload settings w.db dpId token entries).addItems dpId
          (inlineItems settings entries size encodings)) projectId dpId size) = .ok w'.db := by
  rcases hrun : handleRawUpload settings projectId dpId token
    (quarantined settings w dpId token entries) with ⟨w', r⟩
  have hfile : (quarantined settings w dpId token entries).quarantine.get?
      (RAW_FILENAME_FMT token) = some entries := Dict.get?_set_self _ _ _
  have hdp := exists_upload_quarantined settings w dpId token entries
  rcases handleRawUpload_cases hrun hproject hdp hfile with
    ⟨-, -, hnone⟩ | ⟨size', encodings', hread', hadm, hfinish⟩
  · exact absurd ⟨size, encodings, hread, admits_pendingUpload hcan hlength hread⟩ hnone
  · obtain ⟨rfl, rfl⟩ := hread.unique hread'
    rcases finishRawUpload_cases hfinish hproject hdp with
      ⟨hbig, -⟩ | ⟨-, ⟨b, rfl⟩, db, hsave, rfl⟩
    · exact absurd hsize hbig
    · exact ⟨_, b, rfl, hsave⟩

theorem handleRawUpload_succeeds (settings : Settings) (hcan : CanUpload w.db dpId token)
    (hproject : w.db.checkProjectExists projectId = true) {size : ℕ} {encodings : List Bytes}
    (hlength : Int4 entries.length) (hsize : Int4 size)
    (hread : ReadEntries entries size encodings) :
    ∃ w' b, handleRawUpload settings projectId dpId token
      (quarantined settings w dpId token entries) = (w', .ok b) := by
  obtain ⟨w', b, hrun, -⟩ := handleRawUpload_saves settings hcan hproject hlength hsize hread
  exact ⟨w', b, hrun⟩

end Quarantined

section Accepted
variable {clkJson : ClkJson} {usesBlocking : Bool} {job : Job}

def ClkJson.externalEncodings (clkJson : ClkJson) : Option Encodings :=
  clkJson.encodings.filter Encodings.hasFile

theorem handleEncodingUploadJson_of_ok
    (h : abortIfInconsistentUpload usesBlocking clkJson = .ok ()) :
    handleEncodingUploadJson settings projectId dpId clkJson token usesBlocking =
      match clkJson.externalEncodings with
      | some encodings => Action.lift (externalUpload projectId dpId encodings clkJson.blocks)
      | none => Action.lift (inlineEntries usesBlocking clkJson) >>= fun entries =>
          quarantineUpload settings dpId entries token := by
  unfold handleEncodingUploadJson ClkJson.externalEncodings
  rw [h]
  cases hencodings : clkJson.encodings with
  | none => rfl
  | some encodings =>
    cases hfile : encodings.hasFile with
    | true =>
      rw [Option.filter_some_pos hfile]
      simp [hfile]
    | false =>
      rw [Option.filter_some_neg (by simp [hfile])]
      simp [hfile]

theorem handleEncodingUploadJson_inconsistent {w1 : World}
    (h : handleEncodingUploadJson settings projectId dpId clkJson token usesBlocking w =
      (w1, .ok job)) : abortIfInconsistentUpload usesBlocking clkJson = .ok () := by
  unfold handleEncodingUploadJson at h
  cases habort : abortIfInconsistentUpload usesBlocking clkJson with
  | ok u => rfl
  | error message =>
    rw [habort] at h
    cases h

theorem handleEncodingUploadJson_inline (hinline : clkJson.externalEncodings = none) :
    handleEncodingUploadJson settings projectId dpId clkJson token usesBlocking w =
        (w', .ok job) ↔
      abortIfInconsistentUpload usesBlocking clkJson = .ok () ∧
        ∃ entries, inlineEntries usesBlocking clkJson = .ok entries ∧
          (w.db.FreshToken token ∧ Countable settings entries) ∧
          job = .handleRawUpload ∧ w' = quarantined settings w dpId token entries := by
  constructor
  · intro h
    have habort := handleEncodingUploadJson_inconsistent h
    rw [handleEncodingUploadJson_of_ok habort, hinline] at h
    obtain ⟨w1, entries, hlift, hquarantine⟩ := Action.bind_eq_ok.mp h
    obtain ⟨hentries, rfl⟩ := Action.lift_ok hlift
    exact ⟨habort, entries, hentries, quarantineUpload_eq_ok.mp hquarantine⟩
  · rintro ⟨habort, entries, hentries, hquarantine⟩
    rw [handleEncodingUploadJson_of_ok habort, hinline]
    simp only [hentries, Action.lift_ok_bind]
    exact quarantineUpload_eq_ok.mpr hquarantine

theorem handleEncodingUploadJson_error {e : Error}
    (h : handleEncodingUploadJson settings projectId dpId clkJson token usesBlocking w =
      (w', .error e)) : w'.db = w.db := by
  cases habort : abortIfInconsistentUpload usesBlocking clkJson with
  | error message =>
    unfold handleEncodingUploadJson at h
    rw [habort] at h
    exact congrArg World.db (congrArg Prod.fst h).symm
  | ok u =>
    rw [handleEncodingUploadJson_of_ok habort] at h
    cases hexternal : clkJson.externalEncodings with
    | some encodings =>
      rw [hexternal] at h
      exact congrArg World.db (congrArg Prod.fst h).symm
    | none =>
      rw [hexternal] at h
      rcases Action.bind_eq_error.mp h with hlift | ⟨w1, entries, hlift, h1⟩
      · exact congrArg World.db (congrArg Prod.fst hlift).symm
      obtain rfl := (Action.lift_ok hlift).2
      rcases Action.bind_eq_error.mp h1 with hlift | ⟨w2, blocks, hlift, h2⟩
      · exact congrArg World.db (congrArg Prod.fst hlift).symm
      obtain rfl := (Action.lift_ok hlift).2
      rw [Action.modify_bind] at h2
      rcases Action.bind_eq_error.mp h2 with htransaction | ⟨w3, _, -, h3⟩
      · rw [(transaction_eq_error.mp htransaction).2]
      · cases h3

theorem projectClksPost_of_error {w1 : World} {e : Error}
    (h : handleEncodingUploadJson settings projectId dpId clkJson token usesBlocking w =
      (w1, .error e)) :
    ∃ w' e', projectClksPost settings projectId dpId clkJson token usesBlocking w =
      (w', .error e') ∧ w'.db.uploads = w.db.uploads := by
  have huploads := congrArg Database.uploads (handleEncodingUploadJson_error h)
  have hhandle : ∀ handler, (handleEncodingUploadJson settings projectId dpId clkJson token
      usesBlocking).handle handler w = handler e w1 := by
    intro handler
    unfold Action.handle
    rw [h]
  unfold projectClksPost
  cases e <;> exact ⟨_, _, Action.bind_of_error (hhandle _), huploads⟩

theorem projectClksPost_of_ok {w1 : World}
    (h : handleEncodingUploadJson settings projectId dpId clkJson token usesBlocking w =
      (w1, .ok job)) (hproject : w1.db.checkProjectExists projectId = true) :
    ∃ check, projectClksPost settings projectId dpId clkJson token usesBlocking w =
      ({ w1 with db := w1.db.setDataproviderUploadState dpId .done }, .ok (job, check)) := by
  obtain ⟨check, hcheck⟩ := scheduleCheck_succeeds
    (w := { w1 with db := w1.db.setDataproviderUploadState dpId .done })
    (findProject_of_exists hproject) false
  refine ⟨check, ?_⟩
  have hhandle : ∀ handler, (handleEncodingUploadJson settings projectId dpId clkJson token
      usesBlocking).handle handler w = (w1, .ok job) := by
    intro handler
    unfold Action.handle
    rw [h]
  unfold projectClksPost
  rw [Action.bind_of_ok (hhandle _)]
  change (scheduleCheck projectId false >>= _) _ = _
  rw [Action.bind_of_ok hcheck]
  rfl

end Accepted
end EntityService.Views
